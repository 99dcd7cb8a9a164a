import Stencil.Proofs.Page.Overrides

/-! The nearest declaration wins. The text of a page is its topmost ancestor's, with each block
filled by the page nearest to the requested one that declares it and, where none does, by its own
content. A declaration inside a block that a nearer page fills does not count: it goes with the
content that is replaced. -/

namespace Stencil

open Segment

namespace Page

/-- Content for blocks as pages write it, by their names. -/
abbrev Contents := String → Option (List Segment)

/-- The contents with what one page further up declares. -/
def Contents.declare (contents : Contents) (d : Document) : Contents := fun name =>
  (contents name).or ((openBlocksOf (fun name => (contents name).isSome) d.segments).lookup name)

/-- The contents that pages declare, the nearest page first. -/
def nearest (pages : List Document) : Contents :=
  pages.foldl Contents.declare fun _ => none

/-- A text of segments in which the content of each block is the one for its name, or its own if
there is none. -/
inductive Written (contents : Contents) : List Segment → String → Prop where
  | nil : Written contents [] ""
  | text {s u : String} {ss : List Segment} (rest : Written contents ss u) :
    Written contents (.text s :: ss) (s ++ u)
  | block {name v u : String} {children ss : List Segment}
    (content : Written contents ((contents name).getD children) v) (rest : Written contents ss u) :
    Written contents (.block name children :: ss) (v ++ u)

/-- The pages from a page up to its topmost ancestor, without the ancestor, as written. -/
inductive Lineage (loader : Loader) : String → List Document → Document → Prop where
  | top {page : String} {d : Document} (load : loadDocument loader page = .ok d)
    (parents : d.parents = []) : Lineage loader page [] d
  | child {page parent : String} {d top : Document} {pages : List Document}
    (load : loadDocument loader page = .ok d) (parents : d.parents = [parent])
    (rest : Lineage loader (normalize parent) pages top) : Lineage loader page (d :: pages) top

theorem Written.unique {contents : Contents} {ss : List Segment} {u v : String}
    (hu : Written contents ss u) (hv : Written contents ss v) : u = v := by
  induction hu generalizing v with
  | nil =>
    cases hv
    rfl
  | text _ ih =>
    cases hv with
    | text rest => rw [ih rest]
  | block _ _ ihContent ihRest =>
    cases hv with
    | block content rest => rw [ihContent content, ihRest rest]

/-- Overrides that hold the contents, filled. -/
structure Settled (contents : Contents) (o : Overrides) : Prop where
  coherent : o.Coherent
  get? : ∀ name, Table.get? o name = (contents name).map (substituteAll o)

namespace Settled

variable {contents : Contents} {o : Overrides}

theorem nil : Settled (fun _ => none) [] where
  coherent _ _ h := nomatch h
  get? _ := rfl

theorem has_eq (h : Settled contents o) (name : String) : o.has name = (contents name).isSome := by
  rw [Overrides.has, h.get?, Option.isSome_map]

/-- A filled block holds the filled content for its name. -/
theorem substitute_block (h : Settled contents o) (name : String) (children : List Segment) :
    substitute o (.block name children) =
      .block name (substituteAll o ((contents name).getD children)) := by
  have hget := h.get? name
  rw [substitute]
  cases hname : contents name with
  | none =>
    rw [hname] at hget
    rw [hget]
    rfl
  | some content =>
    rw [hname] at hget
    rw [hget]
    rfl

/-- The page next above keeps the overrides settled. -/
theorem declared {c : Climb} (h : Settled contents c.overrides)
    (hd : c.document.duplicateBlock? = none) :
    Settled (contents.declare c.document) c.declared := by
  have hcoherent := Climb.coherent_declared h.coherent hd
  refine ⟨hcoherent, ?_⟩
  intro name
  have hget : Table.get? c.declared name =
      ((contents.declare c.document) name).map (substituteAll c.overrides) := by
    rw [Climb.get?_declared h.coherent hd, h.get?, Climb.added?, Contents.declare,
      show c.overrides.has = fun name => (contents name).isSome from funext h.has_eq]
    cases contents name with
    | none => rfl
    | some content => rfl
  rw [hget]
  cases hname : (contents.declare c.document) name with
  | none => rfl
  | some content =>
    -- the new entries fill the content as the old ones did, since they hold all its blocks
    rw [hname] at hget
    exact congrArg some (Overrides.substituteAll_eq (hcoherent name _ hget)).symm

-- The induction is on the filled segments: what is put in for a block need not be smaller than
-- the block, but filled it stands inside what the block becomes.
mutual

theorem written_children (h : Settled contents o) {name : String} {children : List Segment} :
    (filled : Segment) → substitute o (.block name children) = filled →
      Written contents ((contents name).getD children) (Segment.flatten filled)
  | .text _, hfilled => by
    rw [h.substitute_block] at hfilled
    exact nomatch hfilled
  | .block _ content, hfilled => by
    rw [h.substitute_block] at hfilled
    exact h.written_all content (Segment.block.inj hfilled).2

theorem written_all (h : Settled contents o) {ss : List Segment} :
    (filled : List Segment) → substituteAll o ss = filled →
      Written contents ss (flattenAll filled)
  | [], hfilled => by
    cases ss with
    | nil => exact .nil
    | cons s ss => exact nomatch hfilled
  | f :: fs, hfilled => by
    cases ss with
    | nil => exact nomatch hfilled
    | cons s ss =>
      obtain ⟨hs, hss⟩ := List.cons.inj hfilled
      cases s with
      | text t =>
        obtain rfl : .text t = f := hs
        exact .text (h.written_all fs hss)
      | block name children => exact .block (h.written_children f hs) (h.written_all fs hss)

end

/-- Filled and without markers, segments read as the contents say. -/
theorem written (h : Settled contents o) (ss : List Segment) :
    Written contents ss (flattenAll (substituteAll o ss)) :=
  h.written_all _ rfl

end Settled

theorem written_of_climb {loader : Loader} {fuel : Nat} {c : Climb} {contents : Contents}
    {text : String} (hload : loadDocument loader c.page = .ok c.document)
    (hsettled : Settled contents c.overrides) (h : (climb loader fuel c).result = .ok text) :
    ∃ pages top, Lineage loader c.page pages top ∧
      Written (pages.foldl Contents.declare contents) top.segments text := by
  induction fuel generalizing c contents with
  | zero => exact nomatch h
  | succ fuel ih =>
    rw [climb] at h
    split at h
    · exact nomatch h
    · next hparent =>
      obtain rfl := Except.ok.inj h
      have hparents := Climb.parents_of_parent?_none hparent
      exact ⟨[], c.document, .top hload hparents, hsettled.written _⟩
    · next parent hparent =>
      split at h
      · exact nomatch h
      · next hdup =>
        split at h
        · exact nomatch h
        · split at h
          · exact nomatch h
          · next document hdocument =>
            obtain ⟨marker, hparents, rfl⟩ := Climb.parents_of_parent?_some hparent
            obtain ⟨pages, top, hlineage, hwritten⟩ :=
              ih (c := ⟨normalize marker, document, c.declared, _⟩) hdocument
                (hsettled.declared hdup) h
            exact ⟨c.document :: pages, top, .child hload hparents hlineage, hwritten⟩

/-- What inheritance makes of a page is the one text that the nearest declarations give its
topmost ancestor. -/
theorem inherit_written {loader : Loader} {page text : String}
    (h : (inherit loader page).result = .ok text) :
    ∃ pages top, Lineage loader (normalize page) pages top ∧
      ∀ u, Written (nearest pages) top.segments u ↔ u = text := by
  simp only [inherit] at h
  split at h
  · exact nomatch h
  · next document hload =>
    obtain ⟨pages, top, hlineage, hwritten⟩ :=
      written_of_climb (c := ⟨normalize page, document, [], [normalize page]⟩) hload .nil h
    refine ⟨pages, top, hlineage, ?_⟩
    intro u
    constructor
    · intro hu
      exact hu.unique hwritten
    · rintro rfl
      exact hwritten

/-! A declaration that goes with replaced content. -/

/-- Three pages: the middle one declares block `b` inside a block that the lowest one fills. -/
def nestedLibrary : Library :=
  [("leaf", "\x7b! mid !\x7d\x7b? a ?\x7dy\x7b? endblock ?\x7d"),
    ("mid", "\x7b! root !\x7d\x7b? a ?\x7dm\x7b? b ?\x7dx\x7b? endblock ?\x7d\x7b? endblock ?\x7d"),
    ("root", "\x7b? a ?\x7dA\x7b? endblock ?\x7d\x7b? b ?\x7dB\x7b? endblock ?\x7d")]

theorem inherit_nestedLibrary : (inherit nestedLibrary.loader "leaf").result = .ok "yB" := by
  have h : (inherit nestedLibrary.loader "leaf").result.toOption = some "yB" := by decide +kernel
  cases hresult : (inherit nestedLibrary.loader "leaf").result with
  | error e =>
    rw [hresult] at h
    exact nomatch h
  | ok text =>
    rw [hresult] at h
    exact congrArg Except.ok (Option.some.inj h)

theorem inherit_written_nested : (inherit nestedLibrary.loader "leaf").result = .ok "yB" ∧
    ∃ pages top, Lineage nestedLibrary.loader (normalize "leaf") pages top ∧
      ∀ u, Written (nearest pages) top.segments u ↔ u = "yB" :=
  ⟨inherit_nestedLibrary, inherit_written inherit_nestedLibrary⟩

/-- The contents that the first page declaring a name at any depth has for it. -/
def firstDeclared (pages : List Document) : Contents := fun name =>
  pages.findSome? fun d => d.blocks.lookup name

theorem not_written_firstDeclared : ¬ ∀ (loader : Loader) (page text : String)
    (pages : List Document) (top : Document), (inherit loader page).result = .ok text →
      Lineage loader (normalize page) pages top →
        Written (firstDeclared pages) top.segments text := by
  intro h
  have hleaf : loadDocument nestedLibrary.loader (normalize "leaf") =
      .ok ⟨["mid"], [.block "a" [.text "y"]]⟩ := by rfl
  have hmid : loadDocument nestedLibrary.loader (normalize "mid") =
      .ok ⟨["root"], [.block "a" [.text "m", .block "b" [.text "x"]]]⟩ := by rfl
  have hroot : loadDocument nestedLibrary.loader (normalize "root") =
      .ok ⟨[], [.block "a" [.text "A"], .block "b" [.text "B"]]⟩ := by rfl
  have hcode := h _ _ _ _ _ inherit_nestedLibrary
    (.child hleaf rfl (.child hmid rfl (.top hroot rfl)))
  refine absurd (hcode.unique (v := "y" ++ "" ++ ("x" ++ "" ++ "")) ?_) (by decide)
  exact .block (.text .nil) (.block (.text .nil) .nil)

end Page

end Stencil
