import Stencil.Proofs.Page.Expansion

/-! Which inclusions succeed. Expanding the includes of a text always ends, and it ends well if and
only if every page that can be reached can be read, the page itself cannot be reached, and no page
can be reached from its own text. A loop that is reported shows the way to it. -/

namespace Stencil.Page

section

variable (loader : Loader)

/-- A text reaches the pages it includes, and what their texts reach. -/
inductive Reaches : String → String → Prop where
  | here {text path : String} (mem : path ∈ includesOf text) : Reaches text path
  | through {text page source path : String} (mem : page ∈ includesOf text)
    (load : loader.load page = .ok source) (rest : Reaches source path) : Reaches text path

/-- Pages that are entered from a text one after the other, each included by the text of the one
before it, and the text of the last one. -/
inductive Enters : String → List String → String → Prop where
  | here {text : String} : Enters text [] text
  | through {text page source last : String} {pages : List String} (mem : page ∈ includesOf text)
    (load : loader.load page = .ok source) (rest : Enters source pages last) :
    Enters text (page :: pages) last

/-- How expanding a text of a page ends. -/
structure Resolves (page text : String) (result : Except Error String) : Prop where
  /-- The walk through the texts ends by itself, whatever its depth. -/
  ends : Expands loader [page] (scan [includeMarker] text) result
  ok_iff : (∃ out, result = .ok out) ↔
    (∀ path, Reaches loader text path → ∃ source, loader.load path = .ok source) ∧
      ¬Reaches loader text page ∧
      ∀ path source, Reaches loader text path → loader.load path = .ok source →
        ¬Reaches loader source path
  /-- A page that is reached is missing, or the last of the pages entered, in whose place the text
  stands for `page`, includes one of them. -/
  error : ∀ e, result = .error e →
    (∃ path detail, Reaches loader text path ∧ loader.load path = .error e ∧
      e = .missing (normalize path) detail) ∨
    ∃ pages last path, e = .includeLoop path (page :: pages) ∧ (page :: pages).Nodup ∧
      Enters loader text pages last ∧ path ∈ includesOf last ∧ path ∈ page :: pages

end

variable {loader : Loader} {chain parts : List String} {pieces : List Piece} {text path : String}

theorem mem_included : path ∈ included pieces ↔
    ∃ p ∈ pieces, ∃ target, p.inner? = some target ∧ normalize target = path := by
  rw [included, List.mem_map]
  constructor
  · rintro ⟨target, htarget, rfl⟩
    obtain ⟨p, hp, hinner⟩ := List.mem_filterMap.1 htarget
    exact ⟨p, hp, target, hinner, rfl⟩
  · rintro ⟨p, hp, target, hinner, rfl⟩
    exact ⟨target, List.mem_filterMap.2 ⟨p, hp, hinner⟩, rfl⟩

/-- Every page named among spliced pieces is new to the chain, can be read and is spliced too. -/
theorem Splices.enter (h : Splices loader chain pieces parts) (hpath : path ∈ included pieces) :
    path ∉ chain ∧ ∃ source inside, loader.load path = .ok source ∧
      Splices loader (chain ++ [path]) (scan [includeMarker] source) inside := by
  obtain ⟨q, hq, target, hinner, rfl⟩ := mem_included.1 hpath
  clear hpath
  induction h with
  | nil => exact absurd hq List.not_mem_nil
  | plain inner _ ih =>
    rcases List.mem_cons.1 hq with rfl | hq
    · rw [inner] at hinner
      exact nomatch hinner
    · exact ih hq
  | page inner fresh load content _ _ ih =>
    rcases List.mem_cons.1 hq with rfl | hq
    · obtain rfl := Option.some.inj (inner.symm.trans hinner)
      exact ⟨fresh, _, _, load, content⟩
    · exact ih hq

/-- What a spliced text reaches is spliced at the end of a longer chain. -/
theorem Splices.reach (h : Splices loader chain (scan [includeMarker] text) parts)
    (hpath : Reaches loader text path) : path ∉ chain ∧ ∃ source pages inside,
      loader.load path = .ok source ∧ path ∈ pages ∧
        Splices loader (chain ++ pages) (scan [includeMarker] source) inside := by
  induction hpath generalizing chain parts with
  | here mem =>
    obtain ⟨hfresh, source, inside, hload, hinside⟩ := h.enter mem
    exact ⟨hfresh, source, [_], inside, hload, List.mem_singleton_self _, hinside⟩
  | @through text page source path mem load rest ih =>
    obtain ⟨-, source', inside, hload, hinside⟩ := h.enter mem
    obtain rfl := Except.ok.inj (load.symm.trans hload)
    obtain ⟨hfresh, last, pages, others, hlast, hmem, hothers⟩ := ih hinside
    refine ⟨fun hchain => hfresh (List.mem_append_left _ hchain), last, page :: pages, others,
      hlast, List.mem_cons_of_mem page hmem, ?_⟩
    rw [List.append_cons]
    exact hothers

/-- A fault is a page that cannot be read, or a page of the way to its marker. -/
theorem Faults.cause {e : Error} (h : Faults loader chain pieces e) (hnodup : chain.Nodup)
    (htext : included pieces ⊆ includesOf text) :
    (∃ path, Reaches loader text path ∧ loader.load path = .error e) ∨
      ∃ pages last path, e = .includeLoop path (chain ++ pages) ∧ (chain ++ pages).Nodup ∧
        Enters loader text pages last ∧ path ∈ includesOf last ∧ path ∈ chain ++ pages := by
  have named {q : Piece} {qs : List Piece} {target text : String} (hinner : q.inner? = some target)
      (htext : included (q :: qs) ⊆ includesOf text) : normalize target ∈ includesOf text :=
    htext (mem_included.2 ⟨q, List.mem_cons_self, target, hinner, rfl⟩)
  induction h generalizing text with
  | @loop chain target _ _ inner mem =>
    refine .inr ⟨[], text, normalize target, ?_, ?_, .here, named inner htext, ?_⟩
    · rw [List.append_nil]
    · rwa [List.append_nil]
    · rwa [List.append_nil]
  | missing inner _ load => exact .inl ⟨_, .here (named inner htext), load⟩
  | @inside chain target source _ _ e inner fresh load _ ih =>
    have hchain : (chain ++ [normalize target]).Nodup :=
      (List.perm_append_singleton _ chain).nodup_iff.2 (List.nodup_cons.2 ⟨fresh, hnodup⟩)
    rcases ih hchain (List.Subset.refl (includesOf source)) with
      ⟨path, hpath, hload⟩ | ⟨pages, last, path, he, hpages, henters, hpath, hmem⟩
    · exact .inl ⟨path, .through (named inner htext) load hpath, hload⟩
    · rw [← List.append_cons] at he hpages hmem
      exact .inr ⟨_, last, path, he, hpages, .through (named inner htext) load henters, hpath, hmem⟩
  | later _ _ ih =>
    refine ih hnodup fun path hpath => htext ?_
    obtain ⟨q, hq, hnames⟩ := mem_included.1 hpath
    exact mem_included.2 ⟨q, List.mem_cons_of_mem _ hq, hnames⟩

/-- The last page entered reaches what its text includes. -/
theorem Enters.reaches {pages : List String} {last : String} (h : Enters loader text pages last)
    (hpath : path ∈ includesOf last) : Reaches loader text path := by
  induction h with
  | here => exact .here hpath
  | through mem load _ ih => exact .through mem load (ih hpath)

/-- Every page entered is reached, and its text reaches what the last one includes. -/
theorem Enters.reaches_from {pages : List String} {page last : String}
    (h : Enters loader text pages last) (hpage : page ∈ pages) (hpath : path ∈ includesOf last) :
    Reaches loader text page ∧ ∃ source, loader.load page = .ok source ∧
      Reaches loader source path := by
  induction h with
  | here => exact absurd hpage List.not_mem_nil
  | through mem load rest ih =>
    rcases List.mem_cons.1 hpage with rfl | hpage
    · exact ⟨.here mem, _, load, rest.reaches hpath⟩
    · obtain ⟨hreach, hsource⟩ := ih hpage hpath
      exact ⟨.through mem load hreach, hsource⟩

theorem expandIncludes_resolves (loader : Loader) (page text : String) :
    Resolves loader (normalize page) text (expandIncludes loader page text) := by
  have hends := expandIncludes_expands loader page text
  refine ⟨hends, ?_, ?_⟩
  · constructor
    · rintro ⟨out, hout⟩
      rw [hout] at hends
      obtain ⟨parts, hparts, -⟩ := hends
      refine ⟨fun path hpath => ?_, fun hpage => ?_, fun path source hpath hload hself => ?_⟩
      · obtain ⟨-, source, -, -, hload, -⟩ := hparts.reach hpath
        exact ⟨source, hload⟩
      · exact (hparts.reach hpage).1 (List.mem_singleton_self _)
      · obtain ⟨-, source', pages, inside, hload', hmem, hinside⟩ := hparts.reach hpath
        obtain rfl := Except.ok.inj (hload.symm.trans hload')
        exact (hinside.reach hself).1 (List.mem_append_right _ hmem)
    · rintro ⟨hreads, hpage, hself⟩
      cases hresult : expandIncludes loader page text with
      | ok out => exact ⟨out, rfl⟩
      | error e =>
        rw [hresult] at hends
        rcases Faults.cause hends (List.pairwise_singleton _ _) (List.Subset.refl _) with
          ⟨path, hpath, hload⟩ | ⟨pages, last, path, -, -, henters, hpath, hmem⟩
        · obtain ⟨source, hsource⟩ := hreads path hpath
          rw [hsource] at hload
          exact nomatch hload
        · rcases List.mem_append.1 hmem with hmem | hmem
          · obtain rfl := List.mem_singleton.1 hmem
            exact absurd (henters.reaches hpath) hpage
          · obtain ⟨hreach, source, hload, hloop⟩ := henters.reaches_from hmem hpath
            exact absurd hloop (hself path source hreach hload)
  · intro e he
    rw [he] at hends
    rcases Faults.cause hends (List.pairwise_singleton _ _) (List.Subset.refl _) with
      ⟨path, hpath, hload⟩ | hloop
    · obtain ⟨detail, hdetail⟩ := Loader.load_eq_error hload
      exact .inl ⟨path, detail, hpath, hload, hdetail⟩
    · exact .inr hloop

end Stencil.Page
