import Stencil.Page.Assembly
import Stencil.Proofs.Page.Ascent
import Stencil.Proofs.Page.Reach

/-! What assembling a page reads. It goes up from the page and then through what the text includes,
and two sources of pages that agree on what is read there assemble the page alike, however many
other texts they have. -/

namespace Stencil.Page

section

variable (loader : Loader) (page : String)

/-- The names under which assembling a page reads something. -/
inductive Reads : String → Prop where
  | visited {name : String} (mem : name ∈ (inherit loader page).history) : Reads name
  | included {name text : String} (result : (inherit loader page).result = .ok text)
    (reach : Reaches loader text name) : Reads name

end

variable {loader loader' : Loader} {page name text : String} {c : Climb} {v v' : Visit String}
  {chain parts parts' : List String} {pieces : List Piece} {e e' : Error}

/-! The way up. -/

theorem loadDocument_congr (h : loader'.load page = loader.load page) :
    loadDocument loader' page = loadDocument loader page := by
  rw [loadDocument, h, loadDocument]

theorem Climbs.history_prefix (h : Climbs loader c v) : c.history <+: v.history := by
  induction h with
  | severalParents _ => exact List.prefix_rfl
  | top _ => exact List.prefix_rfl
  | duplicate _ _ => exact List.prefix_rfl
  | loop _ _ _ => exact List.prefix_rfl
  | unreadable _ _ _ _ => exact List.prefix_append _ _
  | up _ _ _ _ _ ih => exact (List.prefix_append _ _).trans ih

theorem Climbs.congr (h : Climbs loader c v)
    (hload : ∀ name ∈ v.history, loader'.load name = loader.load name) : Climbs loader' c v := by
  induction h with
  | severalParents hparent => exact .severalParents hparent
  | top hparent => exact .top hparent
  | duplicate hparent hblock => exact .duplicate hparent hblock
  | loop hparent hblock mem => exact .loop hparent hblock mem
  | unreadable hparent hblock fresh load =>
    rw [← loadDocument_congr (hload _ (by simp))] at load
    exact .unreadable hparent hblock fresh load
  | up hparent hblock fresh load rest ih =>
    have hmem := rest.history_prefix.subset (List.mem_append_right _ (List.mem_singleton_self _))
    rw [← loadDocument_congr (hload _ hmem)] at load
    exact .up hparent hblock fresh load (ih hload)

/-- There is one way up. -/
theorem Climbs.unique (h : Climbs loader c v) (h' : Climbs loader c v') : v = v' := by
  induction h with
  | severalParents hparent => cases h' <;> simp_all
  | top hparent => cases h' <;> simp_all
  | duplicate hparent hblock => cases h' <;> simp_all
  | loop hparent hblock mem => cases h' <;> simp_all
  | unreadable hparent hblock fresh load => cases h' <;> simp_all
  | up hparent hblock fresh load rest ih =>
    cases h' with
    | up hparent' _ _ load' rest' =>
      obtain rfl := Option.some.inj (Except.ok.inj (hparent.symm.trans hparent'))
      obtain rfl := Except.ok.inj (load.symm.trans load')
      exact ih rest'
    | _ => simp_all

theorem Ascends.congr (h : Ascends loader page v)
    (hload : ∀ name ∈ v.history, loader'.load name = loader.load name) :
    Ascends loader' page v := by
  cases h with
  | unreadable load =>
    rw [← loadDocument_congr (hload page (List.mem_singleton_self _))] at load
    exact .unreadable load
  | climbs load rest =>
    have hmem := rest.history_prefix.subset (List.mem_singleton_self page)
    rw [← loadDocument_congr (hload page hmem)] at load
    exact .climbs load (rest.congr hload)

theorem Ascends.unique (h : Ascends loader page v) (h' : Ascends loader page v') : v = v' := by
  cases h with
  | unreadable load =>
    cases h' with
    | unreadable load' => rw [Except.error.inj (load.symm.trans load')]
    | climbs load' => exact nomatch load.symm.trans load'
  | climbs load rest =>
    cases h' with
    | unreadable load' => exact nomatch load.symm.trans load'
    | climbs load' rest' =>
      obtain rfl := Except.ok.inj (load.symm.trans load')
      exact rest.unique rest'

/-! Inclusion. -/

theorem included_cons_subset {p : Piece} {ps : List Piece} :
    included ps ⊆ included (p :: ps) := by
  intro name hname
  obtain ⟨q, hq, hnames⟩ := mem_included.1 hname
  exact mem_included.2 ⟨q, List.mem_cons_of_mem p hq, hnames⟩

theorem mem_included_cons {p : Piece} {ps : List Piece} {target : String}
    (h : p.inner? = some target) : normalize target ∈ included (p :: ps) :=
  mem_included.2 ⟨p, List.mem_cons_self, target, h, rfl⟩

/-- Agreement on what a text reaches. -/
def AgreeBelow (loader loader' : Loader) (text : String) : Prop :=
  ∀ name, Reaches loader text name → loader'.load name = loader.load name

theorem AgreeBelow.through {source : String} (h : AgreeBelow loader loader' text)
    (hmem : name ∈ includesOf text) (hload : loader.load name = .ok source) :
    AgreeBelow loader loader' source :=
  fun _ hreach => h _ (.through hmem hload hreach)

theorem Splices.congr (h : Splices loader chain pieces parts)
    (hpieces : included pieces ⊆ includesOf text) (hagree : AgreeBelow loader loader' text) :
    Splices loader' chain pieces parts := by
  induction h generalizing text with
  | nil => exact .nil
  | plain inner _ ih =>
    exact .plain inner (ih (List.Subset.trans included_cons_subset hpieces) hagree)
  | page inner fresh load _ _ ihcontent ihrest =>
    have hmem := hpieces (mem_included_cons inner)
    exact .page inner fresh ((hagree _ (.here hmem)).trans load)
      (ihcontent (List.Subset.refl _) (hagree.through hmem load))
      (ihrest (List.Subset.trans included_cons_subset hpieces) hagree)

theorem Faults.congr (h : Faults loader chain pieces e)
    (hpieces : included pieces ⊆ includesOf text) (hagree : AgreeBelow loader loader' text) :
    Faults loader' chain pieces e := by
  induction h generalizing text with
  | loop inner mem => exact .loop inner mem
  | missing inner fresh load =>
    have hmem := hpieces (mem_included_cons inner)
    exact .missing inner fresh ((hagree _ (.here hmem)).trans load)
  | inside inner fresh load _ ih =>
    have hmem := hpieces (mem_included_cons inner)
    exact .inside inner fresh ((hagree _ (.here hmem)).trans load)
      (ih (List.Subset.refl _) (hagree.through hmem load))
  | @later chain parts p ps e first _ ih =>
    have hfirst : included [p] ⊆ includesOf text := by
      intro name hname
      obtain ⟨q, hq, hnames⟩ := mem_included.1 hname
      obtain rfl := List.mem_singleton.1 hq
      exact hpieces (mem_included.2 ⟨q, List.mem_cons_self, hnames⟩)
    exact .later (first.congr hfirst hagree)
      (ih (List.Subset.trans included_cons_subset hpieces) hagree)

theorem Splices.unique (h : Splices loader chain pieces parts)
    (h' : Splices loader chain pieces parts') : parts = parts' := by
  induction h generalizing parts' with
  | nil =>
    cases h' with
    | nil => rfl
  | plain inner _ ih =>
    cases h' with
    | plain _ rest' => rw [ih rest']
    | page inner' => exact nomatch inner.symm.trans inner'
  | page inner fresh load _ _ ihcontent ihrest =>
    cases h' with
    | plain inner' => exact nomatch inner.symm.trans inner'
    | page inner' _ load' content' rest' =>
      obtain rfl := Option.some.inj (inner.symm.trans inner')
      obtain rfl := Except.ok.inj (load.symm.trans load')
      rw [ihcontent content', ihrest rest']

/-- Pieces that can be spliced are without a fault. -/
theorem Faults.not_splices (h : Faults loader chain pieces e) :
    ¬ Splices loader chain pieces parts := by
  induction h generalizing parts with
  | loop inner mem =>
    intro h'
    cases h' with
    | plain inner' => exact nomatch inner.symm.trans inner'
    | page inner' fresh' =>
      obtain rfl := Option.some.inj (inner.symm.trans inner')
      exact fresh' mem
  | missing inner fresh load =>
    intro h'
    cases h' with
    | plain inner' => exact nomatch inner.symm.trans inner'
    | page inner' _ load' =>
      obtain rfl := Option.some.inj (inner.symm.trans inner')
      exact nomatch load.symm.trans load'
  | inside inner fresh load _ ih =>
    intro h'
    cases h' with
    | plain inner' => exact nomatch inner.symm.trans inner'
    | page inner' _ load' content' =>
      obtain rfl := Option.some.inj (inner.symm.trans inner')
      obtain rfl := Except.ok.inj (load.symm.trans load')
      exact ih content'
  | later _ _ ih =>
    intro h'
    cases h' with
    | plain _ rest' => exact ih rest'
    | page _ _ _ _ rest' => exact ih rest'

theorem Faults.unique (h : Faults loader chain pieces e) (h' : Faults loader chain pieces e') :
    e = e' := by
  induction h generalizing e' with
  | loop inner mem =>
    cases h' with
    | loop inner' => rw [Option.some.inj (inner.symm.trans inner')]
    | missing inner' fresh | inside inner' fresh =>
      obtain rfl := Option.some.inj (inner.symm.trans inner')
      exact absurd mem fresh
    | later first => exact absurd first (Faults.not_splices (.loop inner mem))
  | missing inner fresh load =>
    cases h' with
    | loop inner' mem =>
      obtain rfl := Option.some.inj (inner.symm.trans inner')
      exact absurd mem fresh
    | missing inner' _ load' =>
      obtain rfl := Option.some.inj (inner.symm.trans inner')
      exact Except.error.inj (load.symm.trans load')
    | inside inner' _ load' =>
      obtain rfl := Option.some.inj (inner.symm.trans inner')
      exact nomatch load.symm.trans load'
    | later first => exact absurd first (Faults.not_splices (.missing inner fresh load))
  | inside inner fresh load content ih =>
    cases h' with
    | loop inner' mem =>
      obtain rfl := Option.some.inj (inner.symm.trans inner')
      exact absurd mem fresh
    | missing inner' _ load' =>
      obtain rfl := Option.some.inj (inner.symm.trans inner')
      exact nomatch load.symm.trans load'
    | inside inner' _ load' content' =>
      obtain rfl := Option.some.inj (inner.symm.trans inner')
      obtain rfl := Except.ok.inj (load.symm.trans load')
      exact ih content'
    | later first => exact absurd first (Faults.not_splices (.inside inner fresh load content))
  | later first rest ih =>
    cases h' with
    | loop inner' mem => exact absurd first (Faults.not_splices (.loop inner' mem))
    | missing inner' fresh load =>
      exact absurd first (Faults.not_splices (.missing inner' fresh load))
    | inside inner' fresh load content =>
      exact absurd first (Faults.not_splices (.inside inner' fresh load content))
    | later _ rest' => exact ih rest'

theorem Expands.unique {r r' : Except Error String} (h : Expands loader chain pieces r)
    (h' : Expands loader chain pieces r') : r = r' := by
  cases r with
  | ok out =>
    obtain ⟨parts, hparts, rfl⟩ := h
    cases r' with
    | ok out' =>
      obtain ⟨parts', hparts', rfl⟩ := h'
      rw [hparts.unique hparts']
    | error e' => exact absurd hparts (Faults.not_splices h')
  | error e =>
    cases r' with
    | ok out' =>
      obtain ⟨parts', hparts', -⟩ := h'
      exact absurd hparts' (Faults.not_splices h)
    | error e' => exact congrArg Except.error (Faults.unique h h')

/-! Assembling. -/

theorem inherit_congr
    (hagree : ∀ name ∈ (inherit loader page).history, loader'.load name = loader.load name) :
    inherit loader' page = inherit loader page :=
  (inherit_ascends loader' page).unique ((inherit_ascends loader page).congr hagree)

theorem expandIncludes_congr (hagree : AgreeBelow loader loader' text) :
    expandIncludes loader' page text = expandIncludes loader page text := by
  have hends := expandIncludes_expands loader page text
  refine (expandIncludes_expands loader' page text).unique ?_
  revert hends
  cases expandIncludes loader page text with
  | ok out =>
    rintro ⟨parts, hparts, rfl⟩
    exact ⟨parts, hparts.congr (List.Subset.refl _) hagree, rfl⟩
  | error e => exact fun hfault => Faults.congr hfault (List.Subset.refl _) hagree

/-- Assembling a page depends on nothing but what it reads. -/
theorem assemble_congr (data : Value)
    (hagree : ∀ name, Reads loader page name → loader'.load name = loader.load name) :
    assemble loader' page data = assemble loader page data := by
  have hinherit : inherit loader' page = inherit loader page :=
    inherit_congr fun name hmem => hagree name (.visited hmem)
  have hflatten : flatten loader' page = flatten loader page := by
    have hexpand : ∀ text, (inherit loader page).result = .ok text →
        expandIncludes loader' page text = expandIncludes loader page text := fun text htext =>
      expandIncludes_congr fun name hreach => hagree name (.included htext hreach)
    rw [flatten, hinherit, flatten, Visit.bind, Visit.bind]
    cases hresult : (inherit loader page).result with
    | error e => rfl
    | ok text => rw [Except.bind, hexpand text hresult]; rfl
  rw [assemble, hflatten, assemble]

end Stencil.Page
