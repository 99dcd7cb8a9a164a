import Stencil.Page.Ancestry

/-! What filling the blocks of a page does to the blocks in it. Content that overrides a block
brings its own blocks along, and overrides collected on the way up have an entry for each block
inside them. -/

namespace Stencil

theorem Table.get?_foldl_insert {α : Type} {f : String → Option α} {entries : List (String × α)}
    (h : ∀ e ∈ entries, f e.1 = some e.2) (t : Table α) (key : String) :
    Table.get? (entries.foldl (fun t e => Table.insert e.1 e.2 t) t) key =
      if key ∈ entries.map (·.1) then f key else Table.get? t key := by
  induction entries generalizing t with
  | nil => rfl
  | cons e entries ih =>
    rw [List.foldl_cons, ih (fun e he => h e (List.mem_cons_of_mem _ he)), Table.get?_insert,
      List.map_cons]
    by_cases hmem : key ∈ entries.map (·.1)
    · rw [if_pos hmem, if_pos (List.mem_cons_of_mem _ hmem)]
    · rw [if_neg hmem]
      by_cases hkey : key = e.1
      · rw [if_pos hkey, hkey, if_pos List.mem_cons_self, h e List.mem_cons_self]
      · rw [if_neg hkey, if_neg]
        exact fun h => (List.mem_cons.1 h).elim hkey hmem

theorem Document.firstRepeat?_eq_none {seen names : List String}
    (h : firstRepeat? seen names = none) : names.Nodup ∧ ∀ name ∈ names, name ∉ seen := by
  induction names generalizing seen with
  | nil => exact ⟨List.nodup_nil, fun _ h => absurd h List.not_mem_nil⟩
  | cons name names ih =>
    rw [firstRepeat?] at h
    split at h
    · exact nomatch h
    · next hname =>
      obtain ⟨hnodup, hseen⟩ := ih h
      refine ⟨List.nodup_cons.2 ⟨fun hmem => hseen name hmem List.mem_cons_self, hnodup⟩, ?_⟩
      intro other hother
      rcases List.mem_cons.1 hother with rfl | hother
      · exact hname
      · exact fun hmem => hseen other hother (List.mem_cons_of_mem _ hmem)

namespace Segment

mutual

/-- The blocks in a segment that neither are hidden nor lie in a hidden block. -/
def openBlocks (hidden : String → Bool) : Segment → List (String × List Segment)
  | text _ => []
  | block name children =>
    if hidden name then [] else (name, children) :: openBlocksOf hidden children

def openBlocksOf (hidden : String → Bool) : List Segment → List (String × List Segment)
  | [] => []
  | s :: ss => openBlocks hidden s ++ openBlocksOf hidden ss

end

mutual

theorem openBlocks_sublist (hidden : String → Bool) :
    (s : Segment) → (openBlocks hidden s).Sublist (blocks s)
  | text _ => List.Sublist.refl _
  | block name children => by
    rw [openBlocks, blocks]
    split
    · exact List.nil_sublist _
    · exact (openBlocksOf_sublist hidden children).cons_cons _

theorem openBlocksOf_sublist (hidden : String → Bool) :
    (ss : List Segment) → (openBlocksOf hidden ss).Sublist (blocksOf ss)
  | [] => List.Sublist.refl _
  | s :: ss => (openBlocks_sublist hidden s).append (openBlocksOf_sublist hidden ss)

end

mutual

theorem not_hidden_of_mem {hidden : String → Bool} {e : String × List Segment} :
    (s : Segment) → e ∈ openBlocks hidden s → hidden e.1 = false
  | text _, h => absurd h List.not_mem_nil
  | block name children, h => by
    rw [openBlocks] at h
    split at h
    · exact absurd h List.not_mem_nil
    · next hname =>
      rcases List.mem_cons.1 h with rfl | h
      · exact Bool.eq_false_iff.2 hname
      · exact not_hidden_of_mem_openBlocksOf children h

theorem not_hidden_of_mem_openBlocksOf {hidden : String → Bool} {e : String × List Segment} :
    (ss : List Segment) → e ∈ openBlocksOf hidden ss → hidden e.1 = false
  | [], h => absurd h List.not_mem_nil
  | s :: ss, h => by
    rcases List.mem_append.1 h with h | h
    · exact not_hidden_of_mem s h
    · exact not_hidden_of_mem_openBlocksOf ss h

end

mutual

theorem blocks_trans {e inner : String × List Segment} (hinner : inner ∈ blocksOf e.2) :
    (s : Segment) → e ∈ blocks s → inner ∈ blocks s
  | text _, h => absurd h List.not_mem_nil
  | block _ children, h => by
    rcases List.mem_cons.1 h with rfl | h
    · exact List.mem_cons_of_mem _ hinner
    · exact List.mem_cons_of_mem _ (blocksOf_trans hinner children h)

theorem blocksOf_trans {e inner : String × List Segment} (hinner : inner ∈ blocksOf e.2) :
    (ss : List Segment) → e ∈ blocksOf ss → inner ∈ blocksOf ss
  | [], h => absurd h List.not_mem_nil
  | s :: ss, h => by
    rcases List.mem_append.1 h with h | h
    · exact List.mem_append_left _ (blocks_trans hinner s h)
    · exact List.mem_append_right _ (blocksOf_trans hinner ss h)

end

end Segment

open Segment

namespace Overrides

variable {o o' : Overrides} {e : String × List Segment}

def has (o : Overrides) (name : String) : Bool := (Table.get? o name).isSome

/-- Each block in an entry has an entry of its own, with the content it has there. -/
def Coherent (o : Overrides) : Prop :=
  ∀ name content, Table.get? o name = some content →
    ∀ e ∈ blocksOf content, Table.get? o e.1 = some e.2

mutual

/-- A block of a filled segment comes from the overrides, or it is one of the segment's own that
they leave open. -/
theorem Coherent.mem_blocks_substitute (ho : o.Coherent) : (s : Segment) →
    e ∈ blocks (substitute o s) → Table.get? o e.1 = some e.2 ∨
      ∃ children, (e.1, children) ∈ openBlocks o.has s ∧ e.2 = substituteAll o children
  | text _, h => absurd h List.not_mem_nil
  | block name children, h => by
    rw [substitute] at h
    rw [openBlocks, has]
    cases hget : Table.get? o name with
    | some content =>
      rw [hget] at h
      rcases List.mem_cons.1 h with rfl | h
      · exact .inl hget
      · exact .inl (ho name content hget e h)
    | none =>
      rw [hget] at h
      rcases List.mem_cons.1 h with rfl | h
      · exact .inr ⟨children, List.mem_cons_self, rfl⟩
      · rcases ho.mem_blocksOf_substituteAll children h with h | ⟨inner, hinner, he⟩
        · exact .inl h
        · exact .inr ⟨inner, List.mem_cons_of_mem _ hinner, he⟩

theorem Coherent.mem_blocksOf_substituteAll (ho : o.Coherent) : (ss : List Segment) →
    e ∈ blocksOf (substituteAll o ss) → Table.get? o e.1 = some e.2 ∨
      ∃ children, (e.1, children) ∈ openBlocksOf o.has ss ∧ e.2 = substituteAll o children
  | [], h => absurd h List.not_mem_nil
  | s :: ss, h => by
    rcases List.mem_append.1 h with h | h
    · rcases ho.mem_blocks_substitute s h with h | ⟨children, hmem, he⟩
      · exact .inl h
      · exact .inr ⟨children, List.mem_append_left _ hmem, he⟩
    · rcases ho.mem_blocksOf_substituteAll ss h with h | ⟨children, hmem, he⟩
      · exact .inl h
      · exact .inr ⟨children, List.mem_append_right _ hmem, he⟩

end

mutual

/-- A block that the overrides leave open is a block of the filled segment. -/
theorem mem_substitute_of_open {name : String} {children : List Segment} : (s : Segment) →
    (name, children) ∈ openBlocks o.has s →
      (name, substituteAll o children) ∈ blocks (substitute o s)
  | text _, h => absurd h List.not_mem_nil
  | block outer inner, h => by
    rw [openBlocks, has] at h
    rw [substitute]
    cases hget : Table.get? o outer with
    | some content =>
      rw [hget] at h
      exact absurd h List.not_mem_nil
    | none =>
      rw [hget] at h
      rcases List.mem_cons.1 h with h | h
      · obtain ⟨rfl, rfl⟩ := Prod.mk.inj h
        exact List.mem_cons_self
      · exact List.mem_cons_of_mem _ (mem_substituteAll_of_open inner h)

theorem mem_substituteAll_of_open {name : String} {children : List Segment} :
    (ss : List Segment) → (name, children) ∈ openBlocksOf o.has ss →
      (name, substituteAll o children) ∈ blocksOf (substituteAll o ss)
  | [], h => absurd h List.not_mem_nil
  | s :: ss, h => by
    rcases List.mem_append.1 h with h | h
    · exact List.mem_append_left _ (mem_substitute_of_open s h)
    · exact List.mem_append_right _ (mem_substituteAll_of_open ss h)

end

/-- Overrides that agree with all blocks of a filled list fill it in the same way. -/
theorem substituteAll_eq {ss : List Segment}
    (h : ∀ e ∈ blocksOf (substituteAll o ss), Table.get? o' e.1 = some e.2) :
    substituteAll o' ss = substituteAll o ss := by
  induction ss with
  | nil => rfl
  | cons s ss ih =>
    have hs : substitute o' s = substitute o s := by
      cases s with
      | text t => rfl
      | block name children =>
        have hblock : ∃ content, substitute o (.block name children) = .block name content := by
          rw [substitute]
          split
          · exact ⟨_, rfl⟩
          · exact ⟨_, rfl⟩
        obtain ⟨content, hcontent⟩ := hblock
        have hget : Table.get? o' name = some content := by
          refine h (name, content) (List.mem_append_left _ ?_)
          rw [hcontent]
          exact List.mem_cons_self
        rw [hcontent, substitute, hget]
    rw [substituteAll, substituteAll, hs, ih fun e he => h e (List.mem_append_right _ he)]

end Overrides

namespace Page.Climb

variable {c : Climb}

/-- The content of the first block of a name that the overrides leave open, filled. -/
def added? (c : Climb) (name : String) : Option (List Segment) :=
  ((openBlocksOf c.overrides.has c.document.segments).lookup name).map (substituteAll c.overrides)

theorem lookup_openBlocksOf (hd : c.document.duplicateBlock? = none) {name : String}
    {children : List Segment}
    (h : (name, children) ∈ openBlocksOf c.overrides.has c.document.segments) :
    (openBlocksOf c.overrides.has c.document.segments).lookup name = some children := by
  have hsub := (openBlocksOf_sublist c.overrides.has c.document.segments).map (·.1)
  exact lookup_of_mem (hsub.nodup (Document.firstRepeat?_eq_none hd).1) h

/-- Every block of the filled page has the content that the overrides or the page give it. -/
theorem content_of_mem_filled (ho : c.overrides.Coherent)
    (hd : c.document.duplicateBlock? = none) {e : String × List Segment}
    (he : e ∈ c.filled.blocks) :
    (Table.get? c.overrides e.1).or (c.added? e.1) = some e.2 := by
  rcases ho.mem_blocksOf_substituteAll c.document.segments he with hget | ⟨children, hopen, heq⟩
  · rw [hget]
    rfl
  · have hget : Table.get? c.overrides e.1 = none := by
      have hhas := not_hidden_of_mem_openBlocksOf _ hopen
      rw [Overrides.has, Option.isSome_eq_false_iff] at hhas
      exact Option.isNone_iff_eq_none.1 hhas
    rw [hget, added?, lookup_openBlocksOf hd hopen, heq]
    rfl

/-- Collecting adds the blocks left open and changes no entry. -/
theorem get?_declared (ho : c.overrides.Coherent) (hd : c.document.duplicateBlock? = none)
    (name : String) :
    Table.get? c.declared name = (Table.get? c.overrides name).or (c.added? name) := by
  rw [declared, Table.get?_foldl_insert
    (f := fun name => (Table.get? c.overrides name).or (c.added? name))
    (fun _ => content_of_mem_filled ho hd)]
  split
  · rfl
  · next hname =>
    have hadded : c.added? name = none := by
      cases hlookup : (openBlocksOf c.overrides.has c.document.segments).lookup name with
      | none =>
        rw [added?, hlookup]
        rfl
      | some children =>
        have hmem := Overrides.mem_substituteAll_of_open _ (mem_of_lookup hlookup)
        exact absurd (List.mem_map_of_mem hmem) hname
    rw [hadded, Option.or_none]

theorem coherent_declared (ho : c.overrides.Coherent) (hd : c.document.duplicateBlock? = none) :
    c.declared.Coherent := by
  intro name content hget e he
  rw [get?_declared ho hd]
  rw [get?_declared ho hd] at hget
  cases hold : Table.get? c.overrides name with
  | some old =>
    rw [hold] at hget
    obtain rfl : old = content := Option.some.inj hget
    rw [ho name old hold e he]
    rfl
  | none =>
    rw [hold] at hget
    obtain ⟨children, hlookup, rfl⟩ := Option.map_eq_some_iff.1 hget
    have hmem := Overrides.mem_substituteAll_of_open _ (mem_of_lookup hlookup)
    exact content_of_mem_filled ho hd (blocksOf_trans he _ hmem)

end Page.Climb

end Stencil
