import Stencil.Page.Ancestry

/-! The way up from a page, said without a bound on its length. The bound that the walk carries
never shows: a page on the way whose text was there before would have a parent that was there
before, so there are no more pages below the last one than there are texts. -/

namespace Stencil.Page

section

variable (loader : Loader)

/-- How the way up from a page that has been read ends. -/
inductive Climbs : Climb → Visit String → Prop where
  | severalParents {c : Climb} {e : Error} (hparent : c.parent? = .error e) : Climbs c (c.fail e)
  | top {c : Climb} (hparent : c.parent? = .ok none) :
    Climbs c ⟨.ok c.filled.flatten, c.history⟩
  | duplicate {c : Climb} {parent name : String} (hparent : c.parent? = .ok (some parent))
    (hblock : c.document.duplicateBlock? = some name) :
    Climbs c (c.fail (.duplicateBlock c.page name))
  | loop {c : Climb} {parent : String} (hparent : c.parent? = .ok (some parent))
    (hblock : c.document.duplicateBlock? = none) (mem : parent ∈ c.history) :
    Climbs c (c.fail (.parentLoop parent c.history))
  | unreadable {c : Climb} {parent : String} {e : Error} (hparent : c.parent? = .ok (some parent))
    (hblock : c.document.duplicateBlock? = none) (fresh : parent ∉ c.history)
    (load : loadDocument loader parent = .error e) : Climbs c ⟨.error e, c.history ++ [parent]⟩
  | up {c : Climb} {parent : String} {d : Document} {v : Visit String}
    (hparent : c.parent? = .ok (some parent)) (hblock : c.document.duplicateBlock? = none)
    (fresh : parent ∉ c.history) (load : loadDocument loader parent = .ok d)
    (rest : Climbs ⟨parent, d, c.declared, c.history ++ [parent]⟩ v) : Climbs c v

/-- How the way up from a page ends. -/
inductive Ascends (page : String) : Visit String → Prop where
  | unreadable {e : Error} (load : loadDocument loader page = .error e) :
    Ascends page ⟨.error e, [page]⟩
  | climbs {d : Document} {v : Visit String} (load : loadDocument loader page = .ok d)
    (rest : Climbs loader ⟨page, d, [], [page]⟩ v) : Ascends page v

end

variable {loader : Loader} {page parent : String} {c : Climb} {v : Visit String}

/-- A text that names one of these pages as its parent. -/
def NamesParent (pages : List String) (text : String) : Prop :=
  ∃ d marker, Document.parse text = .ok d ∧ d.parents = [marker] ∧ normalize marker ∈ pages

theorem NamesParent.append {pages : List String} {text : String} (h : NamesParent pages text)
    (more : List String) : NamesParent (pages ++ more) text := by
  obtain ⟨d, marker, hparse, hparents, hmem⟩ := h
  exact ⟨d, marker, hparse, hparents, List.mem_append_left more hmem⟩

/-- The texts of the pages below use up what the bound on the way allows. -/
theorem climb_climbs {fuel : Nat} (used : List String)
    (hload : loadDocument loader c.page = .ok c.document) (hnodup : used.Nodup)
    (hused : used ⊆ loader.texts) (hparents : ∀ text ∈ used, NamesParent c.history text)
    (hfuel : loader.texts.length < used.length + fuel) : Climbs loader c (climb loader fuel c) := by
  induction fuel generalizing c used with
  | zero =>
    have := hnodup.length_le_of_subset hused
    omega
  | succ fuel ih =>
    rw [climb]
    split
    · next e hparent => exact .severalParents hparent
    · next hparent => exact .top hparent
    · next parent hparent =>
      split
      · next name hblock => exact .duplicate hparent hblock
      · next hblock =>
        split
        · next hmem => exact .loop hparent hblock hmem
        · next hfresh =>
          split
          · next e hdocument => exact .unreadable hparent hblock hfresh hdocument
          · next document hdocument =>
            obtain ⟨marker, hmarker, rfl⟩ := Climb.parents_of_parent?_some hparent
            obtain ⟨text, htext, hparse⟩ := loadDocument_eq_ok hload
            refine .up hparent hblock hfresh hdocument ?_
            refine ih (text :: used) hdocument ?_ ?_ ?_ ?_
            · -- a text used before names a parent on the way, and this one is not there yet
              refine List.nodup_cons.2 ⟨fun hmem => hfresh ?_, hnodup⟩
              obtain ⟨d, other, hd, hother, hhistory⟩ := hparents text hmem
              obtain rfl := Except.ok.inj (hparse.symm.trans hd)
              obtain rfl := (List.cons.inj (hmarker.symm.trans hother)).1
              exact hhistory
            · exact List.cons_subset.2 ⟨Loader.mem_texts_of_load htext, hused⟩
            · refine List.forall_mem_cons.2
                ⟨?_, fun other hother => (hparents other hother).append _⟩
              exact ⟨c.document, marker, hparse, hmarker,
                List.mem_append_right _ (List.mem_singleton_self _)⟩
            · rw [List.length_cons]
              omega

theorem inherit_ascends (loader : Loader) (page : String) :
    Ascends loader (normalize page) (inherit loader page) := by
  unfold inherit
  dsimp only
  split
  · next e hload => exact .unreadable hload
  · next d hload =>
    refine .climbs hload (climb_climbs [] hload List.nodup_nil (List.nil_subset _) ?_ ?_)
    · exact fun text h => absurd h List.not_mem_nil
    · rw [List.length_nil]
      omega

end Stencil.Page
