import Stencil.Proofs.Site.Copies
import Stencil.Proofs.Site.Turns

/-! A build that ends well, stage by stage: the output directory is made, the pages are listed, they
are built one after the other, and the style sheets are copied. Each stage leaves alone what lies
apart from the places that it writes to. -/

namespace Stencil.Site

open Files

variable {s s' start finish : Store} {o : Options} {root output source target name : String}
  {data : Value} {report : Report} {names : List String} {built : List (String × String)}
  {loc : Location} {entries : Table Entry}

/-- The stores between the stages of a build: `start` has the output directory, `finish` the pages
as well. -/
structure Stages (o : Options) (s start finish s' : Store) (data : Value) (names : List String)
    (report : Report) : Prop where
  index : s.isFile (Path.join o.root indexName)
  made : (Files.makeDirectories o.outputPath).run s = (.ok (), start)
  context : pageContext o start = .ok data
  listed : pages o.root start = .ok names
  built : Action.run (names.foldlM (buildPage o.root o.outputPath data) ⟨[], []⟩) start =
    (.ok report, finish)
  copied : (copyTree (Path.join o.root stylesName) (Path.join o.outputPath stylesName)).run
    finish = (.ok (), s')

theorem build_stages (h : (build o).run s = (.ok report, s')) :
    ∃ start finish data names, Stages o s start finish s' data names report := by
  rw [run_build] at h
  split at h
  · next hindex =>
    split at h
    · exact nomatch h
    · obtain ⟨_, start, hmake, h⟩ := Action.run_bind_eq_ok h
      obtain ⟨data, _, hlook, h⟩ := Action.run_bind_eq_ok h
      rw [Action.run_look] at hlook
      obtain ⟨hdata, rfl⟩ := Prod.mk.inj hlook
      obtain ⟨names, _, hlook, h⟩ := Action.run_bind_eq_ok h
      rw [Action.run_look] at hlook
      obtain ⟨hnames, rfl⟩ := Prod.mk.inj hlook
      obtain ⟨report', finish, hpages, h⟩ := Action.run_bind_eq_ok h
      obtain ⟨_, copied, hcopy, hend⟩ := Action.run_bind_eq_ok h
      obtain ⟨hreport, rfl⟩ := Prod.mk.inj (show (Except.ok report', copied) = _ from hend)
      obtain rfl := Except.ok.inj hreport
      exact ⟨start, finish, data, names, hindex, run_makeDirectories hmake, hdata, hnames, hpages,
        hcopy⟩
  · exact nomatch h

namespace Stages

variable (h : Stages o s start finish s' data names report)
include h

theorem evolves_start : Evolves (fun _ => False) s start := evolves_made h.made

theorem output_ne_empty : o.outputPath ≠ "" := outputPath_ne_empty h.listed

theorem isDirectory_output : start.isDirectory o.outputPath :=
  isDirectory_of_makeDirectories h.output_ne_empty h.made

theorem are_names (hs : s.Sound) : names.Nodup ∧ ∀ name ∈ names, IsName name ∧ name ≠ stylesName :=
  pages_names (h.evolves_start.sound hs) h.listed

theorem evolves_copied (hs : finish.Sound) :
    Evolves (finish.address o.outputPath ++ [stylesName] <+: ·) finish s' := by
  have hevolves := evolves_copyTree (Path.join o.root stylesName) hs h.output_ne_empty
  rwa [h.copied] at hevolves

end Stages

/-! Pages. -/

/-- A file at the top of a root whose name ends as those of pages do. -/
def IsTopPage (s : Store) (root name : String) : Prop :=
  pageEnding.toList <:+ name.toList ∧
    ∃ bytes stamp, s.top.get? (s.address root ++ [name]) = some (.file bytes stamp)

theorem isPage_iff {e : Entry} : isPage name e ↔
    pageEnding.toList <:+ name.toList ∧ ∃ bytes stamp, e = .file bytes stamp := by
  cases e with
  | file bytes stamp => simp [isPage, Entry.isDirectory]
  | directory entries => simp [isPage, Entry.isDirectory]

theorem mem_pages (hs : s.Sound) (h : pages root s = .ok names) :
    name ∈ names ↔ IsTopPage s root name := by
  unfold pages at h
  split at h
  · exact nomatch h
  · next bytes stamp hfind =>
    obtain rfl := Except.ok.inj h
    refine iff_of_false List.not_mem_nil ?_
    rintro ⟨-, bytes, stamp, hget⟩
    rw [Entry.get?_append, Store.get?_address hfind] at hget
    exact nomatch hget
  · next entries hfind =>
    obtain rfl := Except.ok.inj h
    have hentry : s.top.get? (s.address root ++ [name]) = Table.get? entries name := by
      rw [Entry.get?_append, Store.get?_address hfind]
      simp [Entry.get?]
    rw [IsTopPage, hentry, List.mem_map]
    constructor
    · rintro ⟨e, he, rfl⟩
      obtain ⟨hmem, hpage⟩ := List.mem_filter.1 he
      obtain ⟨hending, bytes, stamp, hfile⟩ := isPage_iff.1 hpage
      cases hs.of_find? hfind with
      | directory sorted _ _ =>
        exact ⟨hending, bytes, stamp, hfile ▸ lookup_of_mem sorted.nodup hmem⟩
    · rintro ⟨hending, bytes, stamp, hget⟩
      exact ⟨_, List.mem_filter.2 ⟨mem_of_lookup hget, isPage_iff.2 ⟨hending, bytes, stamp, rfl⟩⟩,
        rfl⟩

theorem pages_increase (hs : s.Sound) (h : pages root s = .ok names) :
    names.Pairwise (· < ·) := by
  unfold pages at h
  split at h
  · exact nomatch h
  · obtain rfl := Except.ok.inj h
    exact .nil
  · next entries hfind =>
    obtain rfl := Except.ok.inj h
    cases hs.of_find? hfind with
    | directory sorted _ _ => exact sorted.sublist (List.filter_sublist.map _)

theorem IsTopPage.evolves (h : Evolves (fun _ => False) s s') :
    IsTopPage s' root name ↔ IsTopPage s root name := by
  rw [IsTopPage, IsTopPage, h.address_eq]
  refine and_congr_right fun _ => exists_congr fun bytes => exists_congr fun stamp => ?_
  exact h.files _ _ _ id

/-! What the pages leave alone. -/

theorem Builds.append {mid : Store} {names' : List String} {built' : List (String × String)}
    (h : Builds root output data s names built mid)
    (h' : Builds root output data mid names' built' s') :
    Builds root output data s (names ++ names') (built ++ built') s' := by
  induction h with
  | nil => exact h'
  | built assembled written _ ih => exact .built assembled written (ih h')
  | failed assembled _ ih => exact .failed assembled (ih h')

theorem Builds.get?_apart (h : Builds root output data s names built s')
    (hapart : ∀ b ∈ built, Apart (s.address (Path.join output b.1)) loc) :
    s'.top.get? loc = s.top.get? loc := by
  induction h with
  | nil => rfl
  | built _ written _ ih =>
    obtain ⟨hfirst, hrest⟩ := List.forall_mem_cons.1 hapart
    simp only [← (evolves_write written).address_eq] at hrest
    exact (ih hrest).trans (get?_write written hfirst)
  | failed _ _ ih => exact ih hapart

/-- Pages are files, so that no directory is made for them. -/
theorem Builds.directory (h : Builds root output data s names built s')
    (hloc : s'.top.get? loc = some (.directory entries)) :
    ∃ entries', s.top.get? loc = some (.directory entries') := by
  induction h with
  | nil => exact ⟨entries, hloc⟩
  | built _ written _ ih =>
    obtain ⟨entries', hnext⟩ := ih hloc
    exact directory_of_write written hnext
  | failed _ _ ih => exact ih hloc

/-! What the style sheets leave alone. -/

/-- The style sheets go into a directory of the output that has their name. -/
theorem address_styles (s : Store) (houtput : output ≠ "") :
    s.address (Path.join (Path.join output stylesName) "") = s.address output ++ [stylesName] := by
  rw [s.address_join (Path.join_ne_empty houtput stylesName) (by decide), move_empty,
    s.address_join_name houtput isName_stylesName]

theorem hasPlace_styles (houtput : output ≠ "") (h : s.isDirectory output) :
    s.HasPlace (Path.join (Path.join output stylesName) "") :=
  (Store.hasPlace_join h isName_stylesName).join_empty (Path.join_ne_empty houtput stylesName)

/-- What is no directory is not copied. -/
theorem copyTree_eq_ok (h : (copyTree source target).run s = (.ok (), s')) :
    if s.isDirectory source then
      (copyEntry maxPathBytes source (Path.join target "")).run s = (.ok (), s')
    else s' = s := by
  rw [copyTree, Action.run_bind, Action.run_get] at h
  dsimp only at h
  split
  · next hdirectory => rwa [if_pos hdirectory] at h
  · next hnone =>
    rw [if_neg hnone] at h
    exact (Prod.mk.inj h).2.symm

theorem get?_copyTree (hs : s.Sound) (houtput : output ≠ "") (hthere : s.isDirectory output)
    (hapart : Apart (s.address output ++ [stylesName]) loc)
    (h : (copyTree source (Path.join output stylesName)).run s = (.ok (), s')) :
    s'.top.get? loc = s.top.get? loc := by
  have hcopy := copyTree_eq_ok h
  split at hcopy
  · rw [← address_styles s houtput] at hapart
    exact get?_copyEntry hs (Path.join_ne_empty (Path.join_ne_empty houtput stylesName) "")
      (hasPlace_styles houtput hthere) hapart hcopy
  · rw [hcopy]

end Stencil.Site
