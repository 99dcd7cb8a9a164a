import Stencil.Proofs.Site.Stages

/-! What a build reports. Every page of the root is reported once, as built or as failed, in the
order of the names, and it fails just if it cannot be assembled at its turn. What stood before where
a page fails is there afterwards, unless the directories made for the output lead through it. -/

namespace Stencil.Site

open Files

variable {s s' start finish : Store} {o : Options} {root output page text : String} {data : Value}
  {report report' : Report} {names before after : List String} {built : List (String × String)}
  {failed : List (String × Page.Error)} {e : Page.Error}

/-- What building some pages adds to a report. -/
structure Adds (output : String) (names : List String) (built : List (String × String))
    (failed : List (String × Page.Error)) (report report' : Report) : Prop where
  pages : report'.pages = report.pages ++ built.map fun b => Path.join output b.1
  failures : report'.failures = report.failures ++ failed
  parted : (built.map (·.1) ++ failed.map (·.1)).Perm names
  built_sublist : (built.map (·.1)).Sublist names
  failed_sublist : (failed.map (·.1)).Sublist names

theorem Adds.refl (output : String) (report : Report) : Adds output [] [] [] report report :=
  ⟨(List.append_nil _).symm, (List.append_nil _).symm, .nil, .slnil, .slnil⟩

theorem Adds.addBuilt
    (h : Adds output names built failed ⟨report.pages ++ [Path.join output page], report.failures⟩
      report') :
    Adds output (page :: names) ((page, text) :: built) failed report report' where
  pages := by
    rw [h.pages, List.append_assoc]
    rfl
  failures := h.failures
  parted := h.parted.cons page
  built_sublist := h.built_sublist.cons_cons page
  failed_sublist := h.failed_sublist.cons page

theorem Adds.addFailed (h : Adds output names built failed
      ⟨report.pages, report.failures ++ [(page, e)]⟩ report') :
    Adds output (page :: names) built ((page, e) :: failed) report report' where
  pages := h.pages
  failures := by
    rw [h.failures, List.append_assoc]
    rfl
  parted := List.perm_middle.trans (h.parted.cons page)
  built_sublist := h.built_sublist.cons page
  failed_sublist := h.failed_sublist.cons_cons page

theorem adds_foldlM
    (h : Action.run (names.foldlM (buildPage root output data) report) s = (.ok report', s')) :
    ∃ built failed, Builds root output data s names built s' ∧
      Adds output names built failed report report' := by
  induction names generalizing s report with
  | nil =>
    cases h
    exact ⟨[], [], .nil, .refl output _⟩
  | cons page names ih =>
    rw [List.foldlM_cons] at h
    obtain ⟨next, between, hpage, hrest⟩ := Action.run_bind_eq_ok h
    obtain ⟨built, failed, hbuilds, hadds⟩ := ih hrest
    rw [run_buildPage] at hpage
    split at hpage
    · next html hassembled =>
      split at hpage
      · next hwritten =>
        cases hpage
        exact ⟨(page, html) :: built, failed, .built hassembled hwritten hbuilds, hadds.addBuilt⟩
      · exact nomatch hpage
    · next e hassembled =>
      cases hpage
      exact ⟨built, (page, e) :: failed, .failed hassembled hbuilds, hadds.addFailed⟩

/-- The store at the turn of the page that comes after some others. -/
def turn (o : Options) (data : Value) (start : Store) (before : List String) : Store :=
  (Action.run (before.foldlM (buildPage o.root o.outputPath data) ⟨[], []⟩) start).2

/-- What a page comes to at its turn. -/
def assembleAt (o : Options) (data : Value) (start : Store) (before : List String) (page : String) :
    Except Page.Error String :=
  (Page.assemble (loader (turn o data start before) o.root) page data).result

/-- The failures that a page adds to a report. -/
def failuresOf (page : String) : Except Page.Error String → List (String × Page.Error)
  | .error e => [(page, e)]
  | .ok _ => []

theorem mem_failuresOf {result : Except Page.Error String} :
    (page, e) ∈ failuresOf page result ↔ result = .error e := by
  cases result with
  | error e' => simp [failuresOf, eq_comm]
  | ok text => simp [failuresOf]

theorem Adds.mem_names (h : Adds output names built failed report report')
    {f : String × Page.Error} (hf : f ∈ failed) : f.1 ∈ names :=
  h.failed_sublist.subset (List.mem_map_of_mem hf)

/-- The failures of a build, divided at a page. -/
theorem failures_split (h : Action.run ((before ++ page :: after).foldlM
      (buildPage o.root o.outputPath data) ⟨[], []⟩) start = (.ok report, finish)) :
    ∃ failures failures', report.failures =
        failures ++ failuresOf page (assembleAt o data start before page) ++ failures' ∧
      (∀ f ∈ failures, f.1 ∈ before) ∧ ∀ f ∈ failures', f.1 ∈ after := by
  obtain ⟨first, mid, next, between, hbefore, hpage, hafter⟩ := Action.run_foldlM_split h
  obtain ⟨_, failures, _, hfirst⟩ := adds_foldlM hbefore
  obtain ⟨_, failures', _, hlast⟩ := adds_foldlM hafter
  refine ⟨failures, failures', ?_, fun f => hfirst.mem_names, fun f => hlast.mem_names⟩
  have hturn : turn o data start before = mid := congrArg Prod.snd hbefore
  rw [hlast.failures, assembleAt, hturn]
  rw [run_buildPage] at hpage
  split at hpage
  · next text htext =>
    split at hpage
    · cases hpage
      rw [htext, hfirst.failures, List.nil_append, failuresOf, List.append_nil]
    · exact nomatch hpage
  · next e he =>
    cases hpage
    rw [he, hfirst.failures, List.nil_append, failuresOf]

/-- A page whose name comes once fails just if it cannot be assembled at its turn. -/
theorem mem_failures (hnodup : (before ++ page :: after).Nodup)
    (h : Action.run ((before ++ page :: after).foldlM
      (buildPage o.root o.outputPath data) ⟨[], []⟩) start = (.ok report, finish)) :
    (page, e) ∈ report.failures ↔ assembleAt o data start before page = .error e := by
  obtain ⟨failures, failures', hfailures, hbefore, hafter⟩ := failures_split h
  obtain ⟨-, hpage, hapart⟩ := List.nodup_append.1 hnodup
  have hnot : (page, e) ∉ failures := fun hmem =>
    hapart page (hbefore _ hmem) page List.mem_cons_self rfl
  have hnot' : (page, e) ∉ failures' := fun hmem => (List.nodup_cons.1 hpage).1 (hafter _ hmem)
  rw [hfailures, List.mem_append, List.mem_append, mem_failuresOf]
  simp only [hnot, hnot', false_or, or_false]

/-- A page that can be assembled at its turn is built. -/
theorem builds_at_turn (htext : assembleAt o data start before page = .ok text)
    (h : Action.run ((before ++ page :: after).foldlM
      (buildPage o.root o.outputPath data) ⟨[], []⟩) start = (.ok report, finish)) :
    ∃ earlier later, Builds o.root o.outputPath data start (before ++ page :: after)
      (earlier ++ (page, text) :: later) finish := by
  obtain ⟨first, mid, next, between, hbefore, hpage, hafter⟩ := Action.run_foldlM_split h
  obtain ⟨earlier, -, hearlier, -⟩ := adds_foldlM hbefore
  obtain ⟨later, -, hlater, -⟩ := adds_foldlM hafter
  have hturn : turn o data start before = mid := congrArg Prod.snd hbefore
  rw [assembleAt, hturn] at htext
  rw [run_buildPage, htext] at hpage
  dsimp only at hpage
  split at hpage
  · next hwritten =>
    cases hpage
    exact ⟨earlier, later, hearlier.append (.built htext hwritten hlater)⟩
  · exact nomatch hpage

/-- What is kept at the place where a page was to be written: once the output directory is made, all
that is there. Making that directory changes no file, and nothing at all unless the way there goes
down and up again by way of that place. -/
structure Kept (o : Options) (s start s' : Store) (loc : Location) : Prop where
  entry : s'.top.get? loc = start.top.get? loc
  files (more : Location) (bytes : ByteArray) (stamp : Stamp) :
    s'.top.get? (loc ++ more) = some (.file bytes stamp) ↔
      s.top.get? (loc ++ more) = some (.file bytes stamp)
  before : ".." ∉ Path.parts o.outputPath ∨ ¬ s.LeadsThrough o.outputPath loc →
    s'.top.get? loc = s.top.get? loc

theorem kept_of_unbuilt (h : Stages o s start finish s' data names report) (hs : s.Sound)
    (hbuilds : Builds o.root o.outputPath data start names built finish) (hpage : page ∈ names)
    (hunbuilt : page ∉ built.map (·.1)) :
    Kept o s start s' (s.address (Path.join o.outputPath page)) := by
  have houtput := h.output_ne_empty
  have hstart := h.evolves_start
  have hpages := hbuilds.evolves
  have hfinish := hpages.sound (hstart.sound hs)
  obtain ⟨-, hnames⟩ := h.are_names hs
  obtain ⟨hname, hstyles⟩ := hnames page hpage
  have hbuilt (b : String × String) (hb : b ∈ built) :
      start.address (Path.join o.outputPath b.1) = s.address o.outputPath ++ [b.1] ∧
        b.1 ≠ page := by
    rw [start.address_join_name houtput (hnames b.1 (hbuilds.mem_names hb)).1, hstart.address_eq]
    exact ⟨rfl, fun heq => hunbuilt (heq ▸ List.mem_map_of_mem hb)⟩
  have hsheets : finish.address o.outputPath = s.address o.outputPath := by
    rw [hpages.address_eq, hstart.address_eq]
  rw [s.address_join_name houtput hname]
  have hentry : s'.top.get? (s.address o.outputPath ++ [page]) =
      start.top.get? (s.address o.outputPath ++ [page]) := by
    refine (get?_copyTree hfinish houtput (hpages.isDirectory h.isDirectory_output) ?_
      h.copied).trans (hbuilds.get?_apart fun b hb => ?_)
    · rw [hsheets]
      exact .names hstyles.symm
    · obtain ⟨haddress, hne⟩ := hbuilt b hb
      rw [haddress]
      exact .names hne
  refine ⟨hentry, fun more bytes stamp => ?_, fun hup => ?_⟩
  · rw [← hstart.files _ bytes stamp id, Entry.get?_append _ (_ ++ [page]) more, hentry,
      ← Entry.get?_append]
  · have hnot : ¬ s.LeadsThrough o.outputPath (s.address o.outputPath ++ [page]) :=
      hup.elim (fun hdown => Store.not_leadsThrough hdown (concat_not_prefix_self _ page)) id
    have hmade := get?_makeDirectories hnot
    rw [h.made] at hmade
    exact hentry.trans hmade

/-- What a build from `s` to `s'` reports: `start` is the store with the output directory, `names`
are the pages and `built` the ones of them that were built. -/
structure Reported (o : Options) (data : Value) (s start s' : Store) (names built : List String)
    (report : Report) : Prop where
  listed (name : String) : name ∈ names ↔ IsTopPage s o.root name
  pages : report.pages = built.map (Path.join o.outputPath)
  parted : (built ++ report.failures.map (·.1)).Perm names
  names_increase : names.Pairwise (· < ·)
  built_increase : built.Pairwise (· < ·)
  failures_increase : (report.failures.map (·.1)).Pairwise (· < ·)
  failure (before after : List String) (page : String) (e : Page.Error) :
    names = before ++ page :: after →
      ((page, e) ∈ report.failures ↔ assembleAt o data start before page = .error e)
  success (before after : List String) (page : String) : names = before ++ page :: after →
    page ∈ built → ∃ text, assembleAt o data start before page = .ok text ∧
      s'.readText (Path.join o.outputPath page) = .ok text
  kept (page : String) : page ∈ report.failures.map (·.1) →
    Kept o s start s' (s.address (Path.join o.outputPath page))

theorem build_reports (hs : s.Sound) (h : (build o).run s = (.ok report, s')) :
    ∃ data start names built, (Files.makeDirectories o.outputPath).run s = (.ok (), start) ∧
      pageContext o start = .ok data ∧ Reported o data s start s' names built report := by
  obtain ⟨start, finish, data, names, hstages⟩ := build_stages h
  have hstart := hstages.evolves_start.sound hs
  have hnames := hstages.are_names hs
  have hincrease := pages_increase hstart hstages.listed
  obtain ⟨built, failed, hbuilds, hadds⟩ := adds_foldlM hstages.built
  have hfailures : report.failures = failed := hadds.failures
  have hnodup := hadds.parted.nodup_iff.2 hnames.1
  refine ⟨data, start, names, built.map (·.1), hstages.made, hstages.context, ?_⟩
  rw [← hfailures] at hnodup
  have hfailure (before after : List String) (page : String) (e : Page.Error)
      (hsplit : names = before ++ page :: after) :
      (page, e) ∈ report.failures ↔ assembleAt o data start before page = .error e := by
    subst hsplit
    exact mem_failures hnames.1 hstages.built
  refine ⟨fun name => ?_, ?_, ?_, hincrease, hincrease.sublist hadds.built_sublist, ?_, hfailure,
    fun before after page hsplit hpage => ?_, fun page hpage => ?_⟩
  · exact (mem_pages hstart hstages.listed).trans (IsTopPage.evolves hstages.evolves_start)
  · rw [hadds.pages, List.map_map]
    rfl
  · rw [hfailures]
    exact hadds.parted
  · rw [hfailures]
    exact hincrease.sublist hadds.failed_sublist
  · cases hresult : assembleAt o data start before page with
    | error e =>
      have hfailed := (hfailure before after page e hsplit).2 hresult
      exact absurd rfl ((List.nodup_append.1 hnodup).2.2 page hpage page
        (List.mem_map_of_mem hfailed))
    | ok text =>
      subst hsplit
      obtain ⟨earlier, later, hturn⟩ := builds_at_turn hresult hstages.built
      have hcopied := hstages.evolves_copied (hbuilds.evolves.sound hstart)
      exact ⟨text, rfl, hturn.holds hstages.output_ne_empty hnames hcopied⟩
  · have hname : page ∈ names :=
      hadds.failed_sublist.subset (hfailures ▸ hpage)
    exact kept_of_unbuilt hstages hs hbuilds hname fun hbuilt =>
      (List.nodup_append.1 hnodup).2.2 page hbuilt page hpage rfl

/-- A page, and one that cannot be compiled. -/
def brokenStore : Store := ⟨.directory [
  ("index.html", .file "x".toUTF8 (.given 0)),
  ("p.html", .file "\x7b% endif %\x7d".toUTF8 (.given 0))], [], 0⟩

theorem sound_brokenStore : brokenStore.Sound :=
  Store.sound_flat (List.pairwise_pair.2 (by decide)) (by decide) (by simp [Entry.isDirectory])

def toSite : Options := ⟨".", "site", false, none⟩

theorem pages_brokenStore : ((build toSite).run brokenStore).1.toOption.map
    (fun report => (report.pages, report.failures.map (·.1))) =
      some (["./site/index.html"], ["p.html"]) := by decide +kernel

theorem build_reports_brokenStore : ∃ report s', brokenStore.Sound ∧
    (build toSite).run brokenStore = (.ok report, s') ∧
    ∃ data start names built,
      (Files.makeDirectories toSite.outputPath).run brokenStore = (.ok (), start) ∧
      pageContext toSite start = .ok data ∧
      Reported toSite data brokenStore start s' names built report := by
  obtain ⟨report, hrun, -⟩ := Action.exists_run_eq_ok pages_brokenStore
  exact ⟨report, _, sound_brokenStore, hrun, build_reports sound_brokenStore hrun⟩

/-- The way to the output directory leads through the place where a page was to be written. -/
def throughPage : Options := ⟨".", "out/p.html/..", false, none⟩

theorem failures_throughPage : ((build throughPage).run brokenStore).1.toOption.map
    (fun report => report.failures.map (·.1)) = some ["p.html"] := by decide +kernel

theorem directory_throughPage : (((build throughPage).run brokenStore).2.top.get?
    (brokenStore.address (Path.join throughPage.outputPath "p.html"))).isSome := by decide +kernel

theorem not_build_keeps : ¬ ∀ (s s' : Store) (o : Options) (report : Report) (page : String)
    (e : Page.Error), s.Sound → (build o).run s = (.ok report, s') → (page, e) ∈ report.failures →
      s'.top.get? (s.address (Path.join o.outputPath page)) =
        s.top.get? (s.address (Path.join o.outputPath page)) := by
  intro h
  obtain ⟨report, hrun, hfailures⟩ := Action.exists_run_eq_ok failures_throughPage
  have hfailed : "p.html" ∈ report.failures.map (·.1) := hfailures ▸ List.mem_singleton_self _
  obtain ⟨f, hmem, hpage⟩ := List.mem_map.1 hfailed
  have hkept := h brokenStore _ throughPage report f.1 f.2 sound_brokenStore hrun hmem
  have hthere := directory_throughPage
  rw [← hpage, hkept, hpage] at hthere
  exact absurd hthere (by decide +kernel)

end Stencil.Site
