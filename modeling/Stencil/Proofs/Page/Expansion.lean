import Stencil.Page.Inclusion
import Stencil.Proofs.Scan.Exact

/-! What expanding includes comes to, said without a bound on the depth. The pieces of a text expand
to parts of plain text or to the first fault among them. The bound that the walk carries never
shows: no page of a chain is in it twice, and only so many pages are named anywhere. -/

namespace Stencil.Page

/-- The pages that the markers among these pieces name. -/
def included (pieces : List Piece) : List String :=
  (pieces.filterMap Piece.inner?).map normalize

/-- The pages that a text includes. -/
def includesOf (text : String) : List String := included (scan [includeMarker] text)

section

variable (loader : Loader)

/-- Pieces that stand in a chain are spliced from these parts: plain text is one itself, and a
marker has those of the page it names, which is not in the chain. -/
inductive Splices : List String → List Piece → List String → Prop where
  | nil {chain : List String} : Splices chain [] []
  | plain {chain parts : List String} {p : Piece} {ps : List Piece} (inner : p.inner? = none)
    (rest : Splices chain ps parts) : Splices chain (p :: ps) (p.text :: parts)
  | page {chain inside parts : List String} {target source : String} {p : Piece} {ps : List Piece}
    (inner : p.inner? = some target) (fresh : normalize target ∉ chain)
    (load : loader.load (normalize target) = .ok source)
    (content : Splices (chain ++ [normalize target]) (scan [includeMarker] source) inside)
    (rest : Splices chain ps parts) : Splices chain (p :: ps) (inside ++ parts)

/-- The first fault among pieces that stand in a chain. -/
inductive Faults : List String → List Piece → Error → Prop where
  | loop {chain : List String} {target : String} {p : Piece} {ps : List Piece}
    (inner : p.inner? = some target) (mem : normalize target ∈ chain) :
    Faults chain (p :: ps) (.includeLoop (normalize target) chain)
  | missing {chain : List String} {target : String} {p : Piece} {ps : List Piece} {e : Error}
    (inner : p.inner? = some target) (fresh : normalize target ∉ chain)
    (load : loader.load (normalize target) = .error e) : Faults chain (p :: ps) e
  | inside {chain : List String} {target source : String} {p : Piece} {ps : List Piece} {e : Error}
    (inner : p.inner? = some target) (fresh : normalize target ∉ chain)
    (load : loader.load (normalize target) = .ok source)
    (content : Faults (chain ++ [normalize target]) (scan [includeMarker] source) e) :
    Faults chain (p :: ps) e
  | later {chain parts : List String} {p : Piece} {ps : List Piece} {e : Error}
    (first : Splices loader chain [p] parts) (rest : Faults chain ps e) : Faults chain (p :: ps) e

/-- What pieces in a chain expand to. -/
def Expands (chain : List String) (pieces : List Piece) : Except Error String → Prop
  | .ok out => ∃ parts, Splices loader chain pieces parts ∧ out = String.join parts
  | .error e => Faults loader chain pieces e

end

variable {loader : Loader} {chain : List String} {text : String}

theorem Splices.cons {p : Piece} {ps : List Piece} {first rest : List String}
    (hp : Splices loader chain [p] first) (hps : Splices loader chain ps rest) :
    Splices loader chain (p :: ps) (first ++ rest) := by
  cases hp with
  | plain inner nil =>
    cases nil
    exact .plain inner hps
  | page inner fresh load content nil =>
    cases nil
    rw [List.append_nil]
    exact .page inner fresh load content hps

/-- Pieces that expand one by one expand together, up to the first fault. -/
theorem expands_mapM {f : Piece → Except Error String} {pieces : List Piece}
    (h : ∀ p ∈ pieces, Expands loader chain [p] (f p)) :
    Expands loader chain pieces (do return String.join (← pieces.mapM f)) := by
  induction pieces with
  | nil => exact ⟨[], .nil, rfl⟩
  | cons p ps ih =>
    have hp := h p List.mem_cons_self
    have hps := ih fun q hq => h q (List.mem_cons_of_mem p hq)
    rw [List.mapM_cons]
    cases hfirst : f p with
    | error e =>
      rw [hfirst] at hp
      cases hp with
      | loop inner mem => exact .loop inner mem
      | missing inner fresh load => exact .missing inner fresh load
      | inside inner fresh load content => exact .inside inner fresh load content
      | later _ rest => cases rest
    | ok first =>
      rw [hfirst] at hp
      obtain ⟨parts, hparts, rfl⟩ := hp
      cases hrest : ps.mapM f with
      | error e =>
        rw [hrest] at hps
        exact Faults.later hparts hps
      | ok rest =>
        rw [hrest] at hps
        obtain ⟨others, hothers, hjoin⟩ := hps
        refine ⟨parts ++ others, hparts.cons hothers, ?_⟩
        show String.join (String.join parts :: rest) = _
        rw [String.join_cons, String.join_append, ← hjoin]

/-- One text expands if the pages it includes do, each in the chain with itself at the end. -/
theorem expandPieces_expands {inner : List String → String → Except Error String}
    (h : ∀ path ∈ includesOf text, path ∉ chain → ∀ source, loader.load path = .ok source →
      Expands loader (chain ++ [path]) (scan [includeMarker] source)
        (inner (chain ++ [path]) source)) :
    Expands loader chain (scan [includeMarker] text) (expandPieces loader inner chain text) := by
  refine expands_mapM fun p hp => ?_
  dsimp only
  split
  · next hinner =>
    refine ⟨[p.text], .plain hinner .nil, ?_⟩
    rw [String.join_cons]
    exact (String.append_empty).symm
  · next target hinner =>
    have hmem : normalize target ∈ includesOf text :=
      List.mem_map_of_mem (List.mem_filterMap.2 ⟨p, hp, hinner⟩)
    by_cases hchain : normalize target ∈ chain
    · rw [if_pos hchain]
      exact Faults.loop hinner hchain
    · rw [if_neg hchain]
      cases hload : loader.load (normalize target) with
      | error e => exact Faults.missing hinner hchain hload
      | ok source =>
        have hsource := h _ hmem hchain source hload
        show Expands loader chain [p] (inner (chain ++ [normalize target]) source)
        cases hcontent : inner (chain ++ [normalize target]) source with
        | error e =>
          rw [hcontent] at hsource
          exact Faults.inside hinner hchain hload hsource
        | ok out =>
          rw [hcontent] at hsource
          obtain ⟨parts, hparts, rfl⟩ := hsource
          refine ⟨parts ++ [], .page hinner hchain hload hparts .nil, ?_⟩
          rw [List.append_nil]

/-- The walk down needs no more depth than there are names it has not visited. -/
theorem expand_expands {page : String} {depth : Nat} (names visited : List String)
    (hnames : ∀ source ∈ loader.texts, includesOf source ⊆ names) (hnodup : visited.Nodup)
    (hvisited : visited ⊆ names) (hdepth : names.length ≤ visited.length + depth)
    (htext : includesOf text ⊆ names) :
    Expands loader (page :: visited) (scan [includeMarker] text)
      (expand loader depth (page :: visited) text) := by
  induction depth generalizing visited text with
  | zero =>
    refine expandPieces_expands fun path hpath hfresh => ?_
    -- a fresh name would be one more than there are
    have hne : path ∉ visited := fun h => hfresh (List.mem_cons_of_mem page h)
    have hlength := (List.nodup_cons.2 ⟨hne, hnodup⟩).length_le_of_subset
      (List.cons_subset.2 ⟨htext hpath, hvisited⟩)
    rw [List.length_cons] at hlength
    omega
  | succ depth ih =>
    refine expandPieces_expands fun path hpath hfresh source hload => ?_
    have hne : path ∉ visited := fun h => hfresh (List.mem_cons_of_mem page h)
    refine ih (visited ++ [path]) ?_ ?_ ?_ (hnames _ (Loader.mem_texts_of_load hload))
    · exact (List.perm_append_singleton path visited).nodup_iff.2 (List.nodup_cons.2 ⟨hne, hnodup⟩)
    · exact List.append_subset.2 ⟨hvisited, List.cons_subset.2 ⟨htext hpath, List.nil_subset _⟩⟩
    · rw [List.length_append, List.length_singleton]
      omega

/-! How many names there are. -/

theorem length_le_bytes (cs : List Char) : cs.length ≤ bytes cs := by
  induction cs with
  | nil => exact Nat.zero_le _
  | cons c cs ih =>
    have := c.utf8Size_pos
    rw [bytes_cons, List.length_cons]
    omega

theorem length_glue_le (c : Char) (runs : List Run) :
    (Scan.glue c runs).length ≤ runs.length + 1 := by
  unfold Scan.glue
  split
  · exact Nat.le_succ _
  · exact Nat.le_refl _

theorem length_runsFrom_le (ds : List Delimiter) (skip : Nat) (cs : List Char) :
    (Scan.runsFrom ds skip cs).length ≤ cs.length := by
  fun_induction Scan.runsFrom ds skip cs with
  | case1 => exact Nat.le_refl _
  | case2 n c cs ih => exact Nat.le_succ_of_le ih
  | case3 c cs d n hm ih => exact Nat.succ_le_succ ih
  | case4 c cs hno ih => exact Nat.le_trans (length_glue_le c _) (Nat.succ_le_succ ih)

theorem length_place (p : Position) (runs : List Run) :
    (Scan.place p runs).length = runs.length := by
  induction runs generalizing p with
  | nil => rfl
  | cons r runs ih => exact congrArg (· + 1) (ih _)

theorem length_includesOf_le (text : String) : (includesOf text).length ≤ text.utf8ByteSize := by
  have hpieces : (scan [includeMarker] text).length ≤ text.toList.length := by
    rw [scan, length_place]
    exact length_runsFrom_le _ 0 text.toList
  have hbytes := length_le_bytes text.toList
  rw [bytes_toList] at hbytes
  rw [includesOf, included, List.length_map]
  exact Nat.le_trans (List.length_filterMap_le _ _) (Nat.le_trans hpieces hbytes)

theorem length_flatMap_includesOf_le (texts : List String) (n : Nat) :
    n + (texts.flatMap includesOf).length ≤
      texts.foldl (fun n text => n + text.utf8ByteSize) n := by
  induction texts generalizing n with
  | nil => exact Nat.le_refl _
  | cons text texts ih =>
    have htext := length_includesOf_le text
    have hrest := ih (n + text.utf8ByteSize)
    rw [List.flatMap_cons, List.length_append, List.foldl_cons]
    omega

/-- Expanding a text of a page ends with what it comes to. -/
theorem expandIncludes_expands (loader : Loader) (page text : String) :
    Expands loader [normalize page] (scan [includeMarker] text)
      (expandIncludes loader page text) := by
  refine expand_expands (includesOf text ++ loader.texts.flatMap includesOf) []
    ?_ List.nodup_nil (List.nil_subset _) ?_ (List.subset_append_left _ _)
  · intro source hsource path hpath
    exact List.mem_append_right _ (List.mem_flatMap.2 ⟨source, hsource, hpath⟩)
  · have htext := length_includesOf_le text
    have htexts := length_flatMap_includesOf_le loader.texts 0
    rw [List.length_append, List.length_nil, Loader.size]
    omega

end Stencil.Page
