import Mathlib.Logic.Relation
import Stencil.Proofs.Page.Ascent
import Stencil.Proofs.Page.Overrides

/-! Overrides on the way up. Wherever the way is, each block inside an entry has an entry of its
own, with the content it has there. Going on adds entries and changes none, so what a page declares
is never displaced by a page above it. -/

namespace Stencil.Page

section

variable (loader : Loader)

/-- From a page on the way up to the next one. -/
inductive Climb.Up : Climb → Climb → Prop where
  | up {c : Climb} {parent : String} {d : Document} (hparent : c.parent? = .ok (some parent))
    (hblock : c.document.duplicateBlock? = none) (fresh : parent ∉ c.history)
    (load : loadDocument loader parent = .ok d) :
    Up c ⟨parent, d, c.declared, c.history ++ [parent]⟩

/-- From a page on the way up to one that comes later, or to itself. -/
def Climb.Leads : Climb → Climb → Prop := Relation.ReflTransGen (Climb.Up loader)

/-- A page on the way up from another one. -/
def OnWay (page : String) (c : Climb) : Prop :=
  ∃ d, loadDocument loader page = .ok d ∧ Climb.Leads loader ⟨page, d, [], [page]⟩ c

end

variable {loader : Loader} {page : String} {c c' : Climb} {v : Visit String}

/-- The way goes on where it can. -/
theorem climb_of_up (h : Climb.Up loader c c') (fuel : Nat) :
    climb loader (fuel + 1) c = climb loader fuel c' := by
  obtain ⟨hparent, hblock, fresh, load⟩ := h
  rw [climb, hparent]
  dsimp only
  rw [hblock]
  dsimp only
  rw [if_neg fresh, load]

/-- How a way ends is found by going it, if it may be long enough. -/
theorem Climbs.exists_climb (h : Climbs loader c v) : ∃ fuel, climb loader (fuel + 1) c = v := by
  induction h with
  | severalParents hparent => exact ⟨0, by rw [climb, hparent]⟩
  | top hparent => exact ⟨0, by rw [climb, hparent]⟩
  | duplicate hparent hblock => exact ⟨0, by rw [climb, hparent]; dsimp only; rw [hblock]⟩
  | loop hparent hblock mem =>
    refine ⟨0, ?_⟩
    rw [climb, hparent]
    dsimp only
    rw [hblock]
    dsimp only
    rw [if_pos mem]
  | unreadable hparent hblock fresh load =>
    refine ⟨0, ?_⟩
    rw [climb, hparent]
    dsimp only
    rw [hblock]
    dsimp only
    rw [if_neg fresh, load]
  | up hparent hblock fresh load _ ih =>
    obtain ⟨fuel, hfuel⟩ := ih
    exact ⟨fuel + 1, (climb_of_up (.up hparent hblock fresh load) _).trans hfuel⟩

theorem Climbs.of_up (h : Climbs loader c v) (hup : Climb.Up loader c c') :
    Climbs loader c' v := by
  obtain ⟨hparent, hblock, fresh, load⟩ := hup
  cases h with
  | severalParents h => exact nomatch hparent.symm.trans h
  | top h => exact nomatch hparent.symm.trans h
  | duplicate _ h => exact nomatch hblock.symm.trans h
  | loop h _ mem =>
    obtain rfl := Option.some.inj (Except.ok.inj (hparent.symm.trans h))
    exact absurd mem fresh
  | unreadable h _ _ h' =>
    obtain rfl := Option.some.inj (Except.ok.inj (hparent.symm.trans h))
    exact nomatch load.symm.trans h'
  | up h _ _ h' rest =>
    obtain rfl := Option.some.inj (Except.ok.inj (hparent.symm.trans h))
    obtain rfl := Except.ok.inj (load.symm.trans h')
    exact rest

/-- What a page has come to at the end is what the way on from any page on it comes to. -/
theorem OnWay.climbs (h : OnWay loader (normalize page) c) :
    Climbs loader c (inherit loader page) := by
  obtain ⟨d, hload, hleads⟩ := h
  have hstart : Climbs loader ⟨normalize page, d, [], [normalize page]⟩ (inherit loader page) := by
    have hends := inherit_ascends loader page
    generalize inherit loader page = v at hends ⊢
    cases hends with
    | unreadable hfailed => exact nomatch hload.symm.trans hfailed
    | climbs hload' rest =>
      obtain rfl := Except.ok.inj (hload.symm.trans hload')
      exact rest
  induction hleads with
  | refl => exact hstart
  | tail _ hup ih => exact ih.of_up hup

/-- Every entry is there later, with the content it has. -/
def Overrides.KeptIn (o o' : Overrides) : Prop :=
  ∀ name content, Table.get? o name = some content → Table.get? o' name = some content

theorem Climb.Up.coherent (h : Climb.Up loader c c') (hc : Overrides.Coherent c.overrides) :
    Overrides.Coherent c'.overrides := by
  obtain ⟨-, hblock, -, -⟩ := h
  exact Climb.coherent_declared hc hblock

theorem Climb.Up.keptIn (h : Climb.Up loader c c') (hc : Overrides.Coherent c.overrides) :
    Overrides.KeptIn c.overrides c'.overrides := by
  obtain ⟨-, hblock, -, -⟩ := h
  intro name content hget
  rw [Climb.get?_declared hc hblock, hget]
  rfl

theorem Climb.Leads.coherent (h : Climb.Leads loader c c')
    (hc : Overrides.Coherent c.overrides) : Overrides.Coherent c'.overrides := by
  induction h with
  | refl => exact hc
  | tail _ hup ih => exact hup.coherent ih

theorem Climb.Leads.keptIn (h : Climb.Leads loader c c')
    (hc : Overrides.Coherent c.overrides) : Overrides.KeptIn c.overrides c'.overrides := by
  induction h with
  | refl => exact fun _ _ => id
  | tail hleads hup ih =>
    exact fun name content hget =>
      hup.keptIn (Climb.Leads.coherent hleads hc) name content (ih name content hget)

/-- At every page on the way up the overrides are coherent, and all of them are there unchanged at
every page that comes later. What is left of the way is what inheritance comes to. -/
theorem overrides_onWay (h : OnWay loader (normalize page) c) :
    (∃ fuel, climb loader (fuel + 1) c = inherit loader page) ∧ Overrides.Coherent c.overrides ∧
      ∀ c', Climb.Leads loader c c' → Overrides.KeptIn c.overrides c'.overrides := by
  have hrest := h.climbs.exists_climb
  obtain ⟨d, -, hleads⟩ := h
  have hstart : Overrides.Coherent [] := fun _ _ hget => nomatch hget
  have hcoherent := hleads.coherent hstart
  exact ⟨hrest, hcoherent, fun c' hlater => hlater.keptIn hcoherent⟩

/-- The middle page has a block of its own around one that the lowest page fills, and the content
put in there brings along another block `b`. -/
def bringingLibrary : Library :=
  [("leaf", "\x7b! mid !\x7d\x7b? a ?\x7dx\x7b? b ?\x7dy\x7b? endblock ?\x7d\x7b? endblock ?\x7d"),
    ("mid", "\x7b! root !\x7d\x7b? b ?\x7dm\x7b? endblock ?\x7d\x7b? c ?\x7d\x7b? a ?\x7dn" ++
      "\x7b? endblock ?\x7d\x7b? endblock ?\x7d"),
    ("root", "\x7b? c ?\x7d\x7b? endblock ?\x7d")]

theorem overrides_onWay_bringing : ∃ c, OnWay bringingLibrary.loader (normalize "leaf") c ∧
    c.page = "root" ∧ Table.get? c.overrides "b" = some [.text "y"] ∧
    Table.get? c.overrides "c" = some [.block "a" [.text "x", .block "b" [.text "y"]]] ∧
    (∃ fuel, climb bringingLibrary.loader (fuel + 1) c = inherit bringingLibrary.loader "leaf") ∧
    Overrides.Coherent c.overrides ∧ ∀ c', Climb.Leads bringingLibrary.loader c c' →
      Overrides.KeptIn c.overrides c'.overrides := by
  have hleaf : loadDocument bringingLibrary.loader (normalize "leaf") =
      .ok ⟨["mid"], [.block "a" [.text "x", .block "b" [.text "y"]]]⟩ := by rfl
  have hmid : loadDocument bringingLibrary.loader "mid" =
      .ok ⟨["root"], [.block "b" [.text "m"], .block "c" [.block "a" [.text "n"]]]⟩ := by rfl
  have hroot : loadDocument bringingLibrary.loader "root" = .ok ⟨[], [.block "c" []]⟩ := by rfl
  have hway : OnWay bringingLibrary.loader (normalize "leaf") _ :=
    ⟨_, hleaf, (Relation.ReflTransGen.single (.up rfl rfl (by decide) hmid)).tail
      (.up rfl rfl (by decide) hroot)⟩
  exact ⟨_, hway, rfl, rfl, rfl, overrides_onWay hway⟩

end Stencil.Page
