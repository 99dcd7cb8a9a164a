import Mathlib.Data.List.Chain
import Stencil.Page.Session
import Stencil.Proofs.Page.Ascent
import Stencil.Proofs.Page.Overrides

/-! The history of a page. The way up from it ends well if and only if it comes to a page without a
parent before any page repeats, every page on it can be read and parsed and names at most one
parent, and no page but the last declares a block twice. However it ends, the history is the line
of pages that it went up. -/

namespace Stencil

theorem Document.firstRepeat?_of_nodup {seen names : List String} (hnodup : names.Nodup)
    (hseen : ∀ name ∈ names, name ∉ seen) : firstRepeat? seen names = none := by
  induction names generalizing seen with
  | nil => rfl
  | cons name names ih =>
    obtain ⟨hname, hnames⟩ := List.nodup_cons.1 hnodup
    rw [firstRepeat?, if_neg (hseen name List.mem_cons_self)]
    refine ih hnames fun other hother hmem => ?_
    rcases List.mem_cons.1 hmem with rfl | hmem
    · exact hname hother
    · exact hseen other (List.mem_cons_of_mem name hother) hmem

theorem Document.duplicateBlock?_eq_none_iff {d : Document} :
    d.duplicateBlock? = none ↔ (d.blocks.map (·.1)).Nodup :=
  ⟨fun h => (firstRepeat?_eq_none h).1,
    fun h => firstRepeat?_of_nodup h fun _ _ => List.not_mem_nil⟩

namespace Page

section

variable (loader : Loader)

/-- A page names this one parent. -/
def Extends (page parent : String) : Prop :=
  ∃ d marker, loadDocument loader page = .ok d ∧ d.parents = [marker] ∧ parent = normalize marker

/-- No two blocks of a page have one name. -/
def DistinctBlocks (page : String) : Prop :=
  ∀ d, loadDocument loader page = .ok d → (d.blocks.map (·.1)).Nodup

/-- Pages from one page up, each the parent of the one before it and none there twice. -/
structure Line (page : String) (pages : List String) : Prop where
  head : pages.head? = some page
  nodup : pages.Nodup
  chain : pages.IsChain (Extends loader)

/-- How the way up from a page ends. -/
structure Inherits (page : String) (v : Visit String) : Prop where
  /-- The way ends by itself, whatever its length. -/
  ends : Ascends loader page v
  ok_iff : (∃ text, v.result = .ok text) ↔ ∃ pages top d, Line loader page (pages ++ [top]) ∧
    (∀ p ∈ pages, DistinctBlocks loader p) ∧ loadDocument loader top = .ok d ∧ d.parents = []
  /-- A loop is reported with the page that is there already and all pages up to it. -/
  loop_iff : ∀ parent history, v = ⟨.error (.parentLoop parent history), history⟩ ↔
    ∃ pages top, history = pages ++ [top] ∧ Line loader page history ∧
      (∀ p ∈ history, DistinctBlocks loader p) ∧ Extends loader top parent ∧ parent ∈ history
  loop_history : ∀ parent history, v.result = .error (.parentLoop parent history) →
    v.history = history
  line : Line loader page v.history

/-- A page on the way up, above these. -/
structure Above (page : String) (below : List String) (c : Climb) : Prop where
  history : c.history = below ++ [c.page]
  line : Line loader page c.history
  load : loadDocument loader c.page = .ok c.document
  distinct : ∀ p ∈ below, DistinctBlocks loader p

end

variable {loader : Loader} {page parent top : String} {below pages : List String} {c : Climb}
  {v : Visit String} {d : Document}

theorem Line.single (loader : Loader) (page : String) : Line loader page [page] :=
  ⟨rfl, List.pairwise_singleton _ _, List.isChain_singleton page⟩

theorem Line.snoc (h : Line loader page (pages ++ [top])) (hextends : Extends loader top parent)
    (hfresh : parent ∉ pages ++ [top]) : Line loader page (pages ++ [top] ++ [parent]) where
  head := by
    rw [List.head?_append, h.head]
    rfl
  nodup := (List.perm_append_singleton _ _).nodup_iff.2 (List.nodup_cons.2 ⟨hfresh, h.nodup⟩)
  chain := by
    rw [List.append_assoc, List.singleton_append, List.isChain_append_cons_cons]
    exact ⟨h.chain, hextends, List.isChain_singleton parent⟩

/-- All pages of a line but the last can be read. -/
theorem Line.extends_of_mem (h : Line loader page (pages ++ [top])) {p : String} (hp : p ∈ pages) :
    ∃ q, Extends loader p q := by
  obtain ⟨before, behind, rfl⟩ := List.append_of_mem hp
  have hchain := h.chain
  rw [List.append_assoc, List.cons_append] at hchain
  cases behind with
  | nil => exact ⟨top, (List.isChain_append_cons_cons.1 hchain).2.1⟩
  | cons q behind => exact ⟨q, (List.isChain_append_cons_cons.1 hchain).2.1⟩

theorem distinctBlocks_of_load (hload : loadDocument loader page = .ok d)
    (hblock : d.duplicateBlock? = none) : DistinctBlocks loader page := by
  intro d' hd'
  obtain rfl := Except.ok.inj (hload.symm.trans hd')
  exact Document.duplicateBlock?_eq_none_iff.1 hblock

namespace Above

theorem extends_parent (h : Above loader page below c) (hparent : c.parent? = .ok (some parent)) :
    Extends loader c.page parent := by
  obtain ⟨marker, hmarker, rfl⟩ := Climb.parents_of_parent?_some hparent
  exact ⟨c.document, marker, h.load, hmarker, rfl⟩

theorem line_snoc (h : Above loader page below c) (hparent : c.parent? = .ok (some parent))
    (hfresh : parent ∉ c.history) : Line loader page (c.history ++ [parent]) := by
  have hline := h.line
  rw [h.history] at hline hfresh ⊢
  exact hline.snoc (h.extends_parent hparent) hfresh

theorem distinct_history (h : Above loader page below c)
    (hblock : c.document.duplicateBlock? = none) : ∀ p ∈ c.history, DistinctBlocks loader p := by
  intro p hp
  rw [h.history] at hp
  rcases List.mem_append.1 hp with hp | hp
  · exact h.distinct p hp
  · obtain rfl := List.mem_singleton.1 hp
    exact distinctBlocks_of_load h.load hblock

/-- One page further up. -/
theorem up (h : Above loader page below c) (hparent : c.parent? = .ok (some parent))
    (hblock : c.document.duplicateBlock? = none) (hfresh : parent ∉ c.history)
    (hload : loadDocument loader parent = .ok d) :
    Above loader page c.history ⟨parent, d, c.declared, c.history ++ [parent]⟩ where
  history := rfl
  line := h.line_snoc hparent hfresh
  load := hload
  distinct := h.distinct_history hblock

end Above

/-! What a way that ended went through. -/

theorem Climbs.line (h : Climbs loader c v) (hc : Above loader page below c) :
    Line loader page v.history := by
  induction h generalizing below with
  | severalParents _ => exact hc.line
  | top _ => exact hc.line
  | duplicate _ _ => exact hc.line
  | loop _ _ _ => exact hc.line
  | unreadable hparent _ fresh _ => exact hc.line_snoc hparent fresh
  | up hparent hblock fresh load _ ih => exact ih (hc.up hparent hblock fresh load)

theorem Climbs.of_ok {text : String} (h : Climbs loader c v) (hc : Above loader page below c)
    (hv : v.result = .ok text) : ∃ pages top d, Line loader page (pages ++ [top]) ∧
      (∀ p ∈ pages, DistinctBlocks loader p) ∧ loadDocument loader top = .ok d ∧
        d.parents = [] := by
  induction h generalizing below with
  | severalParents _ => exact nomatch hv
  | @top c hparent =>
    exact ⟨below, c.page, c.document, hc.history ▸ hc.line, hc.distinct, hc.load,
      Climb.parents_of_parent?_none hparent⟩
  | duplicate _ _ => exact nomatch hv
  | loop _ _ _ => exact nomatch hv
  | unreadable _ _ _ _ => exact nomatch hv
  | up hparent hblock fresh load _ ih => exact ih (hc.up hparent hblock fresh load) hv

theorem loadDocument_ne_loop {history : List String} :
    loadDocument loader page ≠ .error (.parentLoop parent history) := by
  intro h
  rcases loadDocument_eq_error h with ⟨_, h⟩ | ⟨_, h⟩
  · exact nomatch h
  · exact nomatch h

theorem Climb.parent?_ne_loop {history : List String} :
    c.parent? ≠ .error (.parentLoop parent history) := by
  intro h
  unfold Climb.parent? at h
  split at h
  · exact nomatch h
  · exact nomatch h
  · exact nomatch h

theorem Climbs.of_loop {history : List String} (h : Climbs loader c v)
    (hc : Above loader page below c) (hv : v.result = .error (.parentLoop parent history)) :
    v.history = history ∧ ∃ pages top, history = pages ++ [top] ∧ Line loader page history ∧
      (∀ p ∈ history, DistinctBlocks loader p) ∧ Extends loader top parent ∧ parent ∈ history := by
  induction h generalizing below with
  | severalParents hparent =>
    rw [Except.error.inj hv] at hparent
    exact absurd hparent Climb.parent?_ne_loop
  | top _ => exact nomatch hv
  | duplicate _ _ => exact nomatch hv
  | @loop c parent hparent hblock mem =>
    obtain ⟨rfl, rfl⟩ := Error.parentLoop.inj (Except.error.inj hv)
    exact ⟨rfl, below, c.page, hc.history, hc.line, hc.distinct_history hblock,
      hc.extends_parent hparent, mem⟩
  | unreadable _ _ _ load =>
    rw [Except.error.inj hv] at load
    exact absurd load loadDocument_ne_loop
  | up hparent hblock fresh load _ ih => exact ih (hc.up hparent hblock fresh load) hv

/-! Where the way up must go. -/

/-- A page without a parent ends the way. -/
theorem Climbs.of_top (h : Climbs loader c v) (hparent : c.parent? = .ok none) :
    v = ⟨.ok c.filled.flatten, c.history⟩ := by
  cases h with
  | top _ => rfl
  | severalParents h => exact nomatch hparent.symm.trans h
  | duplicate h _ => exact nomatch hparent.symm.trans h
  | loop h _ _ => exact nomatch hparent.symm.trans h
  | unreadable h _ _ _ => exact nomatch hparent.symm.trans h
  | up h _ _ _ _ => exact nomatch hparent.symm.trans h

/-- A page that names one parent, without a block declared twice, leaves one way. -/
theorem Climbs.next (h : Climbs loader c v) (hc : Above loader page below c)
    (hextends : Extends loader c.page parent) (hdistinct : DistinctBlocks loader c.page) :
    (parent ∈ c.history ∧ v = ⟨.error (.parentLoop parent c.history), c.history⟩) ∨
      parent ∉ c.history ∧ ∀ d, loadDocument loader parent = .ok d → ∃ c', Climbs loader c' v ∧
        Above loader page c.history c' ∧ c'.history = c.history ++ [parent] := by
  obtain ⟨d, marker, hd, hmarker, rfl⟩ := hextends
  obtain rfl := Except.ok.inj (hc.load.symm.trans hd)
  have hparent : c.parent? = .ok (some (normalize marker)) := by rw [Climb.parent?, hmarker]
  have hblock := Document.duplicateBlock?_eq_none_iff.2 (hdistinct _ hc.load)
  cases h with
  | severalParents h => exact nomatch hparent.symm.trans h
  | top h => exact nomatch hparent.symm.trans h
  | duplicate _ h => exact nomatch hblock.symm.trans h
  | loop h _ mem =>
    obtain rfl := Option.some.inj (Except.ok.inj (hparent.symm.trans h))
    exact .inl ⟨mem, rfl⟩
  | unreadable h _ fresh load =>
    obtain rfl := Option.some.inj (Except.ok.inj (hparent.symm.trans h))
    exact .inr ⟨fresh, fun d hd => nomatch load.symm.trans hd⟩
  | up h _ fresh load rest =>
    obtain rfl := Option.some.inj (Except.ok.inj (hparent.symm.trans h))
    refine .inr ⟨fresh, fun d hd => ?_⟩
    obtain rfl := Except.ok.inj (load.symm.trans hd)
    exact ⟨_, rest, hc.up hparent hblock fresh load, rfl⟩

/-- The way up follows a line to its end. -/
theorem Climbs.follow {rest : List String} (h : Climbs loader c v) (hc : Above loader page below c)
    (hline : Line loader page (pages ++ [top])) (hrest : pages ++ [top] = c.history ++ rest)
    (hdistinct : ∀ p ∈ pages, DistinctBlocks loader p) (hload : loadDocument loader top = .ok d) :
    ∃ c', Climbs loader c' v ∧ Above loader page pages c' ∧ c'.page = top := by
  induction rest generalizing c below with
  | nil =>
    rw [List.append_nil, hc.history] at hrest
    obtain ⟨rfl, htop⟩ := List.append_inj' hrest rfl
    exact ⟨c, h, hc, (List.cons.inj htop).1.symm⟩
  | cons q rest ih =>
    have hsplit : pages ++ [top] = below ++ c.page :: q :: rest := by
      rw [hrest, hc.history, List.append_assoc]
      rfl
    obtain ⟨-, hextends, -⟩ := List.isChain_append_cons_cons.1 (hsplit ▸ hline.chain)
    have hpage : c.page ∈ pages := by
      -- the page is not the last one, because another follows it
      have hlast := congrArg List.dropLast hsplit
      rw [List.dropLast_concat, List.dropLast_append_of_ne_nil (List.cons_ne_nil _ _)] at hlast
      rw [hlast]
      exact List.mem_append_right _ List.mem_cons_self
    rcases h.next hc hextends (hdistinct _ hpage) with ⟨hmem, -⟩ | ⟨hfresh, hnext⟩
    · have hnodup := hline.nodup
      rw [hrest, List.nodup_append] at hnodup
      exact absurd rfl (hnodup.2.2 q hmem q List.mem_cons_self)
    · have hq : ∃ d, loadDocument loader q = .ok d := by
        have hmem : q ∈ pages ++ [top] := by
          rw [hrest]
          exact List.mem_append_right _ List.mem_cons_self
        rcases List.mem_append.1 hmem with hmem | hmem
        · obtain ⟨_, dq, _, hdq, -⟩ := hline.extends_of_mem hmem
          exact ⟨dq, hdq⟩
        · obtain rfl := List.mem_singleton.1 hmem
          exact ⟨d, hload⟩
      obtain ⟨dq, hdq⟩ := hq
      obtain ⟨c', hclimbs, habove, hhistory⟩ := hnext dq hdq
      refine ih hclimbs habove ?_
      rw [hrest, hhistory, List.append_assoc]
      rfl

theorem above_start (hload : loadDocument loader page = .ok d) :
    Above loader page [] ⟨page, d, [], [page]⟩ :=
  ⟨rfl, .single loader page, hload, fun _ h => absurd h List.not_mem_nil⟩

theorem Line.cons_eq (h : Line loader page pages) : ∃ rest, pages = page :: rest := by
  cases pages with
  | nil => exact nomatch h.head
  | cons p rest =>
    obtain rfl := Option.some.inj h.head
    exact ⟨rest, rfl⟩

/-- A way up that ended went to the end of every line whose last page can be read. -/
theorem Ascends.follow (h : Ascends loader page v) (hline : Line loader page (pages ++ [top]))
    (hdistinct : ∀ p ∈ pages, DistinctBlocks loader p) (hload : loadDocument loader top = .ok d) :
    ∃ c, Climbs loader c v ∧ Above loader page pages c ∧ c.page = top := by
  obtain ⟨rest, hrest⟩ := hline.cons_eq
  cases h with
  | climbs load climbs => exact climbs.follow (above_start load) hline hrest hdistinct hload
  | unreadable load =>
    cases pages with
    | nil =>
      obtain rfl : top = page := (List.cons.inj hrest).1
      exact nomatch load.symm.trans hload
    | cons p pages =>
      obtain rfl : p = page := (List.cons.inj hrest).1
      obtain ⟨_, _, _, hd, -⟩ := hline.extends_of_mem List.mem_cons_self
      exact nomatch load.symm.trans hd

theorem Ascends.line (h : Ascends loader page v) : Line loader page v.history := by
  cases h with
  | unreadable _ => exact .single loader page
  | climbs load rest => exact rest.line (above_start load)

theorem Ascends.ok_iff (h : Ascends loader page v) : (∃ text, v.result = .ok text) ↔
    ∃ pages top d, Line loader page (pages ++ [top]) ∧ (∀ p ∈ pages, DistinctBlocks loader p) ∧
      loadDocument loader top = .ok d ∧ d.parents = [] := by
  constructor
  · rintro ⟨text, hv⟩
    cases h with
    | unreadable _ => exact nomatch hv
    | climbs load rest => exact rest.of_ok (above_start load) hv
  · rintro ⟨pages, top, d, hline, hdistinct, hload, hparents⟩
    obtain ⟨c, hclimbs, habove, rfl⟩ := h.follow hline hdistinct hload
    obtain rfl := Except.ok.inj (hload.symm.trans habove.load)
    have hparent : c.parent? = .ok none := by rw [Climb.parent?, hparents]
    exact ⟨_, congrArg Visit.result (hclimbs.of_top hparent)⟩

theorem Ascends.of_loop {history : List String} (h : Ascends loader page v)
    (hv : v.result = .error (.parentLoop parent history)) :
    v.history = history ∧ ∃ pages top, history = pages ++ [top] ∧ Line loader page history ∧
      (∀ p ∈ history, DistinctBlocks loader p) ∧ Extends loader top parent ∧ parent ∈ history := by
  cases h with
  | unreadable load =>
    rw [Except.error.inj hv] at load
    exact absurd load loadDocument_ne_loop
  | climbs load rest => exact rest.of_loop (above_start load) hv

theorem Ascends.loop (h : Ascends loader page v) (hline : Line loader page (pages ++ [top]))
    (hdistinct : ∀ p ∈ pages ++ [top], DistinctBlocks loader p)
    (hextends : Extends loader top parent) (hmem : parent ∈ pages ++ [top]) :
    v = ⟨.error (.parentLoop parent (pages ++ [top])), pages ++ [top]⟩ := by
  obtain ⟨d, _, hload, -⟩ := id hextends
  obtain ⟨c, hclimbs, habove, rfl⟩ :=
    h.follow hline (fun p hp => hdistinct p (List.mem_append_left _ hp)) hload
  have hlast := hdistinct c.page (List.mem_append_right _ (List.mem_singleton_self _))
  rw [← habove.history] at hmem ⊢
  rcases hclimbs.next habove hextends hlast with ⟨-, hv⟩ | ⟨hfresh, -⟩
  · exact hv
  · exact absurd hmem hfresh

namespace Session

/-- No task changes what a session is about. -/
theorem request_perform (loader : Loader) (s : Session) (task : Task) :
    (s.perform loader task).2.request = s.request := by
  cases task with
  | inherit => rfl
  | expand _ => rfl
  | flatten => rfl
  | assemble _ => rfl

theorem request_after (s : Session) (tasks : List (Loader × Task)) :
    (s.after tasks).request = s.request := by
  induction tasks generalizing s with
  | nil => rfl
  | cons task tasks ih => exact (ih _).trans (request_perform task.1 s task.2)

end Session

/-- Whatever was done in a session before, its page is gone up from alike. -/
theorem inherits_after (loader : Loader) (request : String) (tasks : List (Loader × Task)) :
    let r := ((Session.start request).after tasks).perform loader .inherit
    Inherits loader (normalize request) ⟨r.1, r.2.history⟩ := by
  have hrequest := Session.request_after (Session.start request) tasks
  have hends : Ascends loader (normalize request)
      (inherit loader ((Session.start request).after tasks).request) := by
    rw [hrequest]
    exact inherit_ascends loader request
  refine ⟨hends, hends.ok_iff, fun parent history => ?_, fun parent history hv => ?_, hends.line⟩
  · constructor
    · intro hv
      exact (hends.of_loop (congrArg Visit.result hv)).2
    · rintro ⟨pages, top, rfl, hline, hdistinct, hextends, hmem⟩
      exact hends.loop hline hdistinct hextends hmem
  · exact (hends.of_loop hv).1

end Page

end Stencil
