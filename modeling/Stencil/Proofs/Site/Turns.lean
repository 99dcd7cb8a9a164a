import Stencil.Proofs.Page.Agreement
import Stencil.Proofs.Site.Steps

/-! The pages of a build, one after the other. Every page is assembled over the store in which the
pages before it are written already. It holds what it was given when the build is over, and it is
the page of the store at the start if it reads no file that one of the pages before it was written
to. -/

namespace Stencil.Site

open Files

variable {s s' start turn : Store} {o : Options} {root output : String} {data : Value}
  {report report' : Report} {names : List String} {built before after : List (String × String)}
  {page text path source target : String}

/-- Building some pages in order, each from the store as the ones before it leave it, and the pages
that were built with their texts. -/
inductive Builds (root output : String) (data : Value) :
    Store → List String → List (String × String) → Store → Prop where
  | nil {s : Store} : Builds root output data s [] [] s
  | built {s next last : Store} {page text : String} {names : List String}
    {built : List (String × String)}
    (assembled : (Page.assemble (loader s root) page data).result = .ok text)
    (written : s.write (Path.join output page) text.toUTF8 = .ok next)
    (rest : Builds root output data next names built last) :
    Builds root output data s (page :: names) ((page, text) :: built) last
  | failed {s last : Store} {page : String} {e : Page.Error} {names : List String}
    {built : List (String × String)}
    (assembled : (Page.assemble (loader s root) page data).result = .error e)
    (rest : Builds root output data s names built last) :
    Builds root output data s (page :: names) built last

theorem builds_foldlM
    (h : Action.run (names.foldlM (buildPage root output data) report) s = (.ok report', s')) :
    ∃ built, Builds root output data s names built s' ∧
      report'.pages = report.pages ++ built.map fun b => Path.join output b.1 := by
  induction names generalizing s report with
  | nil =>
    cases h
    exact ⟨[], .nil, (List.append_nil _).symm⟩
  | cons page names ih =>
    rw [List.foldlM_cons] at h
    obtain ⟨next, between, hpage, hrest⟩ := Action.run_bind_eq_ok h
    obtain ⟨built, hbuilt, hpages⟩ := ih hrest
    rw [run_buildPage] at hpage
    split at hpage
    · next html hassembled =>
      split at hpage
      · next hwritten =>
        cases hpage
        refine ⟨(page, html) :: built, .built hassembled hwritten hbuilt, ?_⟩
        rw [hpages, List.append_assoc]
        rfl
      · exact nomatch hpage
    · next e hassembled =>
      cases hpage
      exact ⟨built, .failed hassembled hbuilt, hpages⟩

/-- Building pages changes nothing but the files of the pages that were built. -/
theorem Builds.evolves (h : Builds root output data s names built s') :
    Evolves (fun loc => ∃ b ∈ built, loc = s.address (Path.join output b.1)) s s' := by
  induction h with
  | nil => exact .refl _ _
  | @built s next last page text names built _ written _ ih =>
    have hfirst := evolves_write written
    refine (hfirst.mono fun loc hloc => ⟨_, List.mem_cons_self, hloc⟩).trans
      (ih.mono fun loc hloc => ?_)
    obtain ⟨b, hb, hloc⟩ := hloc
    exact ⟨b, List.mem_cons_of_mem _ hb, hloc.trans (hfirst.address_eq _)⟩
  | failed _ _ ih => exact ih

theorem Builds.mem_names (h : Builds root output data s names built s') {b : String × String}
    (hb : b ∈ built) : b.1 ∈ names := by
  induction h with
  | nil => exact absurd hb List.not_mem_nil
  | built _ _ _ ih =>
    obtain rfl | hb := List.mem_cons.1 hb
    · exact List.mem_cons_self
    · exact List.mem_cons_of_mem _ (ih hb)
  | failed _ _ ih => exact List.mem_cons_of_mem _ (ih hb)

/-- The turn of a page that was built. -/
theorem Builds.split (h : Builds root output data s names (before ++ (page, text) :: after) s') :
    ∃ earlier later turn next, names = earlier ++ page :: later ∧
      Builds root output data s earlier before turn ∧
      (Page.assemble (loader turn root) page data).result = .ok text ∧
      turn.write (Path.join output page) text.toUTF8 = .ok next ∧
      Builds root output data next later after s' := by
  generalize hbuilt : before ++ (page, text) :: after = built at h
  induction h generalizing before with
  | nil => exact absurd hbuilt (List.append_ne_nil_of_right_ne_nil _ (List.cons_ne_nil _ _))
  | @built s next last page' text' names built assembled written rest ih =>
    cases before with
    | nil =>
      obtain ⟨hpage, rfl⟩ := List.cons.inj hbuilt
      obtain ⟨rfl, rfl⟩ := Prod.mk.inj hpage
      exact ⟨[], names, s, next, rfl, .nil, assembled, written, rest⟩
    | cons b before =>
      obtain ⟨rfl, hrest⟩ := List.cons.inj hbuilt
      obtain ⟨earlier, later, turn, after', rfl, hbefore, htext, hwrite, hlater⟩ := ih hrest
      exact ⟨page' :: earlier, later, turn, after', rfl, .built assembled written hbefore, htext,
        hwrite, hlater⟩
  | @failed s last page' e names built assembled rest ih =>
    obtain ⟨earlier, later, turn, next, rfl, hbefore, htext, hwrite, hlater⟩ := ih hbuilt
    exact ⟨page' :: earlier, later, turn, next, rfl, .failed assembled hbefore, htext, hwrite,
      hlater⟩

/-- What a build from `s` to `s'` makes of a page: `start` is the store with the output directory,
and `before` are the pages built before this one. -/
structure Turned (o : Options) (data : Value) (s start s' : Store)
    (before : List (String × String)) (page text : String) : Prop where
  /-- The text is that of the page in the store as the pages before leave it. -/
  turn : ∃ names turn, Builds o.root o.outputPath data start names before turn ∧
    (Page.assemble (loader turn o.root) page data).result = .ok text
  holds : s'.readText (Path.join o.outputPath page) = .ok text
  /-- It is also that of the page in the first store, if the files that are read there are there
  and the pages before were not written to them. -/
  independent : (∀ name, Page.Reads (loader s o.root) page name →
      (s.readText (Path.join o.root (Page.normalize name))).isOk ∧
        ∀ b ∈ before, s.address (Path.join o.root (Page.normalize name)) ≠
          s.address (Path.join o.outputPath b.1)) →
    (Page.assemble (loader s o.root) page data).result = .ok text

/-- A file that nothing was written to is loaded as before. -/
theorem load_evolves {within : Location → Prop} {name : String} (h : Evolves within s s')
    (hthere : (s.readText (Path.join root (Page.normalize name))).isOk)
    (hpath : ¬ within (s.address (Path.join root (Page.normalize name)))) :
    (loader s' root).load name = (loader s root).load name := by
  cases hread : s.readText (Path.join root (Page.normalize name)) with
  | error fault =>
    rw [hread] at hthere
    exact nomatch hthere
  | ok source =>
    have hread' := h.readText hpath hread
    unfold Page.Loader.load loader
    dsimp only
    rw [hread, hread']

/-- Two names in one directory are two addresses. -/
theorem address_join_inj {name name' : String} (houtput : output ≠ "") (h : IsName name)
    (h' : IsName name') :
    s.address (Path.join output name) = s.address (Path.join output name') → name = name' := by
  rw [s.address_join_name houtput h, s.address_join_name houtput h']
  exact fun heq => List.singleton_inj.1 (List.append_cancel_left heq)

/-- What is written for a page stays there. -/
theorem Builds.holds {finish : Store} (houtput : output ≠ "")
    (hnames : names.Nodup ∧ ∀ name ∈ names, IsName name ∧ name ≠ stylesName)
    (h : Builds root output data start names (before ++ (page, text) :: after) finish)
    (hcopy : Evolves (finish.address output ++ [stylesName] <+: ·) finish s') :
    s'.readText (Path.join output page) = .ok text := by
  obtain ⟨earlier, later, turn, next, rfl, hbefore, -, hwrite, hlater⟩ := h.split
  obtain ⟨hnodup, hall⟩ := hnames
  obtain ⟨hpage, hstyles⟩ := hall page (List.mem_append_right _ List.mem_cons_self)
  have hevolves := hlater.evolves
  have hread : finish.readText (Path.join output page) = .ok text := by
    refine hevolves.readText ?_ (Store.readText_of_write hwrite)
    rintro ⟨b, hb, haddress⟩
    have hblater := hlater.mem_names hb
    have hname := (hall b.1 (List.mem_append_right _ (List.mem_cons_of_mem _ hblater))).1
    have heq := address_join_inj houtput hpage hname haddress
    rw [← heq] at hblater
    exact (List.nodup_cons.1 (List.nodup_append.1 hnodup).2.1).1 hblater
  refine hcopy.readText ?_ hread
  rw [finish.address_join_name houtput hpage, List.prefix_append_right_inj]
  intro hprefix
  exact hstyles (List.cons_prefix_cons.1 hprefix).1.symm

theorem outputPath_ne_empty (h : pages o.root start = .ok names) : o.outputPath ≠ "" := by
  refine Path.join_ne_empty (fun hroot => ?_) o.output
  unfold pages at h
  rw [hroot] at h
  exact nomatch h

/-- Every page that a build reports holds the text that it has in the store at its turn, and in the
store before the build if it reads none of the pages that were written before it. -/
theorem build_turned (hs : s.Sound) (h : (build o).run s = (.ok report, s')) :
    ∃ data start built, (makeDirectories o.outputPath).run s = (.ok (), start) ∧
      pageContext o start = .ok data ∧
      report.pages = built.map (fun b => Path.join o.outputPath b.1) ∧
      ∀ before page text after, built = before ++ (page, text) :: after →
        Turned o data s start s' before page text := by
  rw [run_build] at h
  split at h
  · split at h
    · exact nomatch h
    · obtain ⟨_, start, hmake, hrest⟩ := Action.run_bind_eq_ok h
      obtain ⟨data, _, hlook, hrest⟩ := Action.run_bind_eq_ok hrest
      rw [Action.run_look] at hlook
      obtain ⟨hdata, rfl⟩ := Prod.mk.inj hlook
      obtain ⟨names, _, hlook, hrest⟩ := Action.run_bind_eq_ok hrest
      rw [Action.run_look] at hlook
      obtain ⟨hnames, rfl⟩ := Prod.mk.inj hlook
      obtain ⟨report', finish, hpages, hrest⟩ := Action.run_bind_eq_ok hrest
      obtain ⟨_, copied, hcopy, hend⟩ := Action.run_bind_eq_ok hrest
      have hend : (Except.ok report', copied) = ((.ok report : Except Error Report), s') := hend
      obtain ⟨rfl, rfl⟩ := (Prod.mk.inj hend).imp_left Except.ok.inj
      have hstart : Evolves (fun _ => False) s start := by
        have hevolves := evolves_makeDirectories o.outputPath s
        rwa [show ((Files.makeDirectories o.outputPath).run s).2 = start from
          congrArg Prod.snd hmake] at hevolves
      have houtput : o.outputPath ≠ "" := outputPath_ne_empty hnames
      obtain ⟨built, hbuilds, hreport⟩ := builds_foldlM hpages
      have hfinish := hbuilds.evolves.sound (hstart.sound hs)
      have hcopied : Evolves (finish.address o.outputPath ++ [stylesName] <+: ·) finish copied := by
        have hevolves := evolves_copyTree (Path.join o.root stylesName) hfinish houtput
        rwa [hcopy] at hevolves
      refine ⟨data, start, built, hmake, hdata, hreport, ?_⟩
      rintro before page text after rfl
      have hholds := hbuilds.holds houtput (pages_names (hstart.sound hs) hnames) hcopied
      obtain ⟨earlier, -, turn, -, -, hbefore, htext, -, -⟩ := hbuilds.split
      refine ⟨⟨earlier, turn, hbefore, htext⟩, hholds, fun hreads => ?_⟩
      rw [← htext]
      refine congrArg Page.Visit.result (Page.assemble_congr data fun name hname => ?_).symm
      obtain ⟨hthere, hapart⟩ := hreads name hname
      have hturn := (hstart.mono fun _ h => h.elim).trans hbefore.evolves
      refine load_evolves hturn hthere ?_
      rintro ⟨b, hb, haddress⟩
      rw [hstart.address_eq] at haddress
      exact hapart b hb haddress
  · exact nomatch h

/-- A page and one that it is the parent of. -/
def familyStore : Store := ⟨.directory [
  ("b.html", .file "\x7b?t?\x7dA\x7b?endblock?\x7d".toUTF8 (.given 0)),
  ("index.html", .file "\x7b!b.html!\x7d\x7b?t?\x7dB\x7b?endblock?\x7d".toUTF8 (.given 0))], [], 0⟩

/-- The pages are built into the directory that they are read from. -/
def ontoItself : Options := ⟨".", ".", true, none⟩

theorem sound_familyStore : familyStore.Sound :=
  Store.sound_flat (List.pairwise_pair.2 (by decide)) (by decide) (by simp [Entry.isDirectory])

theorem pages_familyStore : ((build ontoItself).run familyStore).1.toOption.map (·.pages) =
    some ["././b.html", "././index.html"] := by decide +kernel

theorem build_turned_familyStore : ∃ report s', familyStore.Sound ∧
    (build ontoItself).run familyStore = (.ok report, s') ∧
    ∃ data start built,
      (makeDirectories ontoItself.outputPath).run familyStore = (.ok (), start) ∧
      pageContext ontoItself start = .ok data ∧
      report.pages = built.map (fun b => Path.join ontoItself.outputPath b.1) ∧
      ∀ before page text after, built = before ++ (page, text) :: after →
        Turned ontoItself data familyStore start s' before page text := by
  obtain ⟨report, hrun, -⟩ := Action.exists_run_eq_ok pages_familyStore
  exact ⟨report, _, sound_familyStore, hrun, build_turned sound_familyStore hrun⟩

theorem assemble_familyStore : (Page.assemble (loader familyStore ".") "index.html"
    (withOutput "." (.map []))).result.toOption = some "B" := by decide +kernel

theorem readText_built_familyStore : (((build ontoItself).run familyStore).2.readText
    "././index.html").toOption = some "A" := by decide +kernel

/-- The page that is built last is not the one that the store held before the build. -/
theorem not_build_from_start : ¬ ∀ (s s' : Store) (o : Options) (report : Report) (data : Value)
    (page text : String), s.Sound → (build o).run s = (.ok report, s') →
      pageContext o s = .ok data → Path.join o.outputPath page ∈ report.pages →
      (Page.assemble (loader s o.root) page data).result = .ok text →
      s'.readText (Path.join o.outputPath page) = .ok text := by
  intro h
  obtain ⟨report, hrun, hpages⟩ := Action.exists_run_eq_ok pages_familyStore
  have hmem : Path.join ontoItself.outputPath "index.html" ∈ report.pages := by
    rw [hpages]
    exact List.mem_cons_of_mem _ List.mem_cons_self
  have hstart := h familyStore _ ontoItself report _ "index.html" "B" sound_familyStore hrun rfl
    hmem (eq_ok_of_toOption assemble_familyStore)
  have hbuilt := eq_ok_of_toOption readText_built_familyStore
  rw [show Path.join ontoItself.outputPath "index.html" = "././index.html" by decide] at hstart
  exact absurd (Except.ok.inj (hstart.symm.trans hbuilt)) (by decide)

end Stencil.Site
