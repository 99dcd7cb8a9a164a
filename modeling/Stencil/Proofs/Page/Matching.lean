import Mathlib.Data.List.Forall2
import Mathlib.Data.List.Intervals
import Stencil.Proofs.Page.Blocks
import Stencil.Stretch

/-! Block markers and their partners. A closing marker belongs to the last opening marker before it
that has no partner yet. A page that parses is its pieces read with these partners: a block for each
opening marker that has one, with what lies between the two, and nothing else lost. -/

namespace Stencil.Document

deriving instance DecidableEq for Part

/-- What the piece at `i` stands for. -/
def partAt (ps : List Piece) (i : Nat) : Option Part := ps[i]?.map Part.ofPiece

/-- The opening markers among the first `n` pieces that have no partner there, the last first. -/
def unmatched (ps : List Piece) : Nat → List Nat
  | 0 => []
  | n + 1 =>
    match partAt ps n with
    | some (.opening _) => n :: unmatched ps n
    | some .closing => (unmatched ps n).tail
    | _ => unmatched ps n

/-- The closing marker at `j` belongs to the opening marker at `i`. -/
structure Matches (ps : List Piece) (i j : Nat) : Prop where
  closing : partAt ps j = some .closing
  last : (unmatched ps j).head? = some i

/-- The opening marker at `i` has a partner. -/
def Matched (ps : List Piece) (i : Nat) : Prop := ∃ j < ps.length, Matches ps i j

/-- The pieces from `i` to before `j` read as segments. -/
inductive Between (ps : List Piece) : Nat → Nat → List Segment → Prop where
  | nil {i : Nat} : Between ps i i []
  | text {i j : Nat} {p : Piece} {ss : List Segment} (place : ps[i]? = some p)
    (part : Part.ofPiece p = .text p.text) (rest : Between ps (i + 1) j ss) :
    Between ps i j (.text p.text :: ss)
  | parent {i j : Nat} {name : String} {ss : List Segment}
    (part : partAt ps i = some (.parent name)) (rest : Between ps (i + 1) j ss) : Between ps i j ss
  | block {i j k : Nat} {name : String} {children ss : List Segment}
    (part : partAt ps i = some (.opening name)) (partner : Matches ps i k)
    (content : Between ps (i + 1) k children) (rest : Between ps (k + 1) j ss) :
    Between ps i j (.block name children :: ss)
  | unclosed {i j : Nat} {p : Piece} {name : String} {ss : List Segment} (place : ps[i]? = some p)
    (part : Part.ofPiece p = .opening name) (alone : ¬ Matched ps i)
    (rest : Between ps (i + 1) j ss) : Between ps i j (.text p.text :: ss)

instance (ps : List Piece) (i j : Nat) : Decidable (Matches ps i j) :=
  decidable_of_iff (partAt ps j = some .closing ∧ (unmatched ps j).head? = some i)
    ⟨fun h => ⟨h.1, h.2⟩, fun h => ⟨h.1, h.2⟩⟩

instance (ps : List Piece) (i : Nat) : Decidable (Matched ps i) :=
  inferInstanceAs (Decidable (∃ j < ps.length, Matches ps i j))

/-- What is left of the piece at `i` without page markers and block markers that have partners. -/
def kept (ps : List Piece) (i : Nat) : List Char :=
  match ps[i]? with
  | none => []
  | some p =>
    match Part.ofPiece p with
    | .text _ => p.text.toList
    | .opening _ => if Matched ps i then [] else p.text.toList
    | _ => []

/-- The document is the source read with its block markers as brackets. -/
structure Bracketed (source : String) (d : Document) (ps : List Piece) : Prop where
  whole : ps.flatMap (·.text.toList) = source.toList
  parents : d.parents = ps.filterMap parentName?
  closings (j : Nat) : partAt ps j = some .closing → ∃ i, Matches ps i j
  segments (ss : List Segment) : Between ps 0 ps.length ss ↔ ss = d.segments
  blocks : List.Forall₂ (fun i b => partAt ps i = some (.opening b.1) ∧
      ∃ j, Matches ps i j ∧ Between ps (i + 1) j b.2)
    ((List.range ps.length).filter (Matched ps ·)) d.blocks
  flatten : d.flatten.toList = (List.range ps.length).flatMap (kept ps)

variable {ps inside qs : List Piece} {p : Piece} {ss ts : List Segment} {i j k n : Nat}
  {name : String}

theorem text_of_ofPiece {t : String} (h : Part.ofPiece p = .text t) : t = p.text := by
  unfold Part.ofPiece at h
  split at h
  · split at h
    · exact nomatch h
    · split at h
      · exact nomatch h
      · split at h <;> exact nomatch h
  · exact (Part.text.inj h).symm

theorem partAt_of_place (h : ps[i]? = some p) : partAt ps i = some (Part.ofPiece p) := by
  rw [partAt, h]
  rfl

/-! Partners. -/

theorem mem_unmatched (h : i ∈ unmatched ps n) :
    i < n ∧ ∃ name, partAt ps i = some (.opening name) := by
  induction n with
  | zero => exact nomatch h
  | succ n ih =>
    have old : i ∈ unmatched ps n → i < n + 1 ∧ ∃ name, partAt ps i = some (.opening name) :=
      fun h => ⟨Nat.lt_succ_of_lt (ih h).1, (ih h).2⟩
    unfold unmatched at h
    split at h
    · next name hpart =>
      obtain rfl | hold := List.mem_cons.mp h
      · exact ⟨Nat.lt_succ_self i, name, hpart⟩
      · exact old hold
    · exact old (List.mem_of_mem_tail h)
    · exact old h

theorem Matches.opening (h : Matches ps i j) :
    i < j ∧ ∃ name, partAt ps i = some (.opening name) :=
  mem_unmatched (List.mem_of_mem_head? h.last)

theorem Matches.lt_length (h : Matches ps i j) : j < ps.length := by
  obtain ⟨q, hq, -⟩ := Option.map_eq_some_iff.mp h.closing
  exact (List.getElem?_eq_some_iff.mp hq).1

theorem Matches.matched (h : Matches ps i j) : Matched ps i := ⟨j, h.lt_length, h⟩

theorem pairwise_unmatched (ps : List Piece) (n : Nat) : (unmatched ps n).Pairwise (· > ·) := by
  induction n with
  | zero => exact .nil
  | succ n ih =>
    unfold unmatched
    split
    · exact .cons (fun _ h => (mem_unmatched h).1) ih
    · exact ih.tail
    · exact ih

/-- A marker that has found its partner is not looked for again. -/
theorem Matches.not_mem (h : Matches ps i j) (hn : j < n) : i ∉ unmatched ps n := by
  induction n with
  | zero => exact nomatch hn
  | succ n ih =>
    obtain hlt | rfl := Nat.lt_succ_iff_lt_or_eq.mp hn
    · have hold := ih hlt
      unfold unmatched
      split
      · refine List.not_mem_cons_of_ne_of_not_mem ?_ hold
        exact (h.opening.1.trans hlt).ne
      · exact fun hmem => hold (List.mem_of_mem_tail hmem)
      · exact hold
    · obtain ⟨rest, hrest⟩ := List.head?_eq_some_iff.mp h.last
      have hlater := pairwise_unmatched ps j
      rw [hrest] at hlater
      unfold unmatched
      rw [h.closing, hrest]
      exact fun hmem => (List.rel_of_pairwise_cons hlater hmem).false

theorem Matches.unique (h : Matches ps i j) (h' : Matches ps i k) : j = k := by
  have not_lt : ∀ {j k}, Matches ps i j → Matches ps i k → ¬ j < k :=
    fun h h' hlt => h.not_mem hlt (List.mem_of_mem_head? h'.last)
  exact Nat.le_antisymm (Nat.not_lt.mp (not_lt h' h)) (Nat.not_lt.mp (not_lt h h'))

/-! Reading. -/

theorem Between.le (h : Between ps i j ss) : i ≤ j := by
  induction h with
  | nil => exact Nat.le_refl _
  | text _ _ _ ih | parent _ _ ih | unclosed _ _ _ _ ih => exact Nat.le_of_succ_le ih
  | block _ _ _ _ hcontent hrest =>
    exact Nat.le_of_succ_le (hcontent.trans (Nat.le_of_succ_le hrest))

/-- There is one way to read pieces. -/
theorem Between.unique (h : Between ps i j ss) (h' : Between ps i j ts) : ss = ts := by
  induction h generalizing ts with
  | nil =>
    cases h' with
    | nil => rfl
    | text _ _ rest | parent _ rest | unclosed _ _ _ rest =>
      exact absurd rest.le (Nat.not_succ_le_self _)
    | block _ _ content rest =>
      exact absurd (content.le.trans (Nat.le_of_succ_le rest.le)) (Nat.not_succ_le_self _)
  | text place part rest ih =>
    cases h' with
    | nil => exact absurd rest.le (Nat.not_succ_le_self _)
    | text place' part' rest' =>
      obtain rfl := Option.some.inj (place.symm.trans place')
      rw [ih rest']
    | parent part' | block part' => simp [partAt, place, part] at part'
    | unclosed place' part' => simp_all
  | parent part rest ih =>
    cases h' with
    | nil => exact absurd rest.le (Nat.not_succ_le_self _)
    | text place' part' | unclosed place' part' => simp [partAt, place', part'] at part
    | parent part' rest' => exact ih rest'
    | block part' => simp_all
  | block part partner content rest ihcontent ihrest =>
    cases h' with
    | nil => exact absurd (content.le.trans (Nat.le_of_succ_le rest.le)) (Nat.not_succ_le_self _)
    | text place' part' => simp [partAt, place', part'] at part
    | parent part' => simp_all
    | block part' partner' content' rest' =>
      obtain rfl := partner.unique partner'
      obtain rfl := Part.opening.inj (Option.some.inj (part.symm.trans part'))
      rw [ihcontent content', ihrest rest']
    | unclosed _ _ alone => exact absurd partner.matched alone
  | unclosed place part alone rest ih =>
    cases h' with
    | nil => exact absurd rest.le (Nat.not_succ_le_self _)
    | text place' part' => simp_all
    | parent part' => simp [partAt, place, part] at part'
    | block _ partner => exact absurd partner.matched alone
    | unclosed place' part' _ rest' =>
      obtain rfl := Option.some.inj (place.symm.trans place')
      rw [ih rest']

/-! Balanced pieces among others. -/

theorem unmatched_opening (h : partAt ps n = some (.opening name)) :
    unmatched ps (n + 1) = n :: unmatched ps n := by
  rw [unmatched, h]

theorem unmatched_closing (h : partAt ps n = some .closing) :
    unmatched ps (n + 1) = (unmatched ps n).tail := by
  rw [unmatched, h]

theorem add_length_cons (n : Nat) (p : Piece) (ps : List Piece) :
    n + (p :: ps).length = n + 1 + ps.length := by
  rw [List.length_cons]
  omega

theorem add_length_block (n : Nat) (p q : Piece) (inside behind : List Piece) :
    n + (p :: inside ++ q :: behind).length = n + 1 + inside.length + 1 + behind.length := by
  simp only [List.length_append, List.length_cons]
  omega

/-- Balanced pieces leave no marker without a partner behind and take no partner from before. -/
theorem Balanced.unmatched_eq (h : Balanced qs ss) (hqs : Holds ps n qs) :
    unmatched ps (n + qs.length) = unmatched ps n := by
  induction h generalizing n with
  | nil => rfl
  | text part _ ih | parent part _ ih =>
    have hsame : unmatched ps (n + 1) = unmatched ps n := by
      rw [unmatched, partAt_of_place hqs.head, part]
    rw [add_length_cons, ih hqs.tail, hsame]
  | @block p q name inside behind children ss opening content closing rest ihcontent ihrest =>
    have hq : Holds ps (n + 1 + inside.length) (q :: behind) := hqs.tail.right
    have hlast : unmatched ps (n + 1 + inside.length) = n :: unmatched ps n := by
      rw [ihcontent hqs.tail.left, unmatched_opening (opening ▸ partAt_of_place hqs.head)]
    have hnext : unmatched ps (n + 1 + inside.length + 1) = unmatched ps n := by
      rw [unmatched_closing (closing ▸ partAt_of_place hq.head), hlast]
      rfl
    rw [add_length_block, ihrest hq.tail, hnext]

/-- The partner of an opening marker is what follows the balanced pieces behind it. -/
theorem Balanced.matches {q : Piece} (h : Balanced inside ss)
    (hp : Holds ps n (p :: inside ++ q :: qs)) (opening : Part.ofPiece p = .opening name)
    (closing : Part.ofPiece q = .closing) : Matches ps n (n + 1 + inside.length) := by
  constructor
  · exact closing ▸ partAt_of_place hp.tail.right.head
  · rw [h.unmatched_eq hp.tail.left, unmatched_opening (opening ▸ partAt_of_place hp.head)]
    rfl

theorem Balanced.between (h : Balanced qs ss) (hqs : Holds ps n qs)
    (rest : Between ps (n + qs.length) j ts) : Between ps n j (ss ++ ts) := by
  induction h generalizing n j ts with
  | nil => exact rest
  | text part _ ih =>
    obtain rfl := text_of_ofPiece part
    rw [add_length_cons] at rest
    exact .text hqs.head part (ih hqs.tail rest)
  | parent part _ ih =>
    rw [add_length_cons] at rest
    exact .parent (part ▸ partAt_of_place hqs.head) (ih hqs.tail rest)
  | @block p q name inside behind children ss opening content closing _ ihcontent ihrest =>
    have hq : Holds ps (n + 1 + inside.length) (q :: behind) := hqs.tail.right
    have hinside := ihcontent hqs.tail.left .nil
    rw [List.append_nil] at hinside
    rw [add_length_block] at rest
    exact .block (opening ▸ partAt_of_place hqs.head) (content.matches hqs opening closing) hinside
      (ihrest hq.tail rest)

/-- What follows takes no partner from before either. -/
theorem Trailing.unmatched_suffix (h : Trailing qs ts) (hqs : Holds ps n qs) :
    unmatched ps n <:+ unmatched ps (n + qs.length) := by
  induction h generalizing n with
  | nil => exact List.suffix_rfl
  | @unclosed p name inside qs ss ts opening balanced _ ih =>
    have hopen := unmatched_opening (opening ▸ partAt_of_place hqs.head)
    have hinside := balanced.unmatched_eq hqs.tail.left
    have hrest := ih hqs.tail.right
    have hlen : n + (p :: inside ++ qs).length = n + 1 + inside.length + qs.length := by
      simp only [List.length_append, List.length_cons]
      omega
    rw [hlen]
    rw [hinside, hopen] at hrest
    exact (List.suffix_cons _ _).trans hrest

theorem Trailing.between (h : Trailing qs ts) (hqs : Holds ps n qs)
    (hend : n + qs.length = ps.length) : Between ps n ps.length ts := by
  induction h generalizing n with
  | nil =>
    obtain rfl : n = ps.length := hend
    exact .nil
  | @unclosed p name inside qs ss ts opening balanced trailing ih =>
    have hlen : n + 1 + inside.length + qs.length = ps.length := by
      simp only [List.length_append, List.length_cons] at hend
      omega
    have hstill := trailing.unmatched_suffix hqs.tail.right
    rw [balanced.unmatched_eq hqs.tail.left, hlen,
      unmatched_opening (opening ▸ partAt_of_place hqs.head)] at hstill
    have hmem : n ∈ unmatched ps ps.length := hstill.subset List.mem_cons_self
    have halone : ¬ Matched ps n := fun ⟨j, hj, hmatches⟩ => hmatches.not_mem hj hmem
    exact .unclosed hqs.head opening halone
      (balanced.between hqs.tail.left (ih hqs.tail.right hlen))

/-! What a reading tells. -/

theorem Matched.opening (h : Matched ps i) : ∃ name, partAt ps i = some (.opening name) :=
  let ⟨_, _, hmatches⟩ := h
  hmatches.opening.2

theorem not_matched {part : Part} (h : partAt ps i = some part)
    (hpart : ∀ name, part ≠ .opening name) : ¬ Matched ps i := by
  intro hmatched
  obtain ⟨name, hname⟩ := hmatched.opening
  exact hpart name (Option.some.inj (h.symm.trans hname))

theorem kept_of_place (h : ps[i]? = some p) : kept ps i =
    match Part.ofPiece p with
    | .text _ => p.text.toList
    | .opening _ => if Matched ps i then [] else p.text.toList
    | _ => [] := by
  rw [kept, h]

/-- What lies from one marker to behind its partner. -/
theorem ico_block (hi : i < k) (hk : k < j) :
    List.Ico i j = i :: (List.Ico (i + 1) k ++ k :: List.Ico (k + 1) j) := by
  rw [List.Ico.eq_cons (hi.trans hk), ← List.Ico.append_consecutive hi hk.le, List.Ico.eq_cons hk]

theorem Between.closings (h : Between ps i j ss) {k : Nat} (hi : i ≤ k) (hj : k < j)
    (hk : partAt ps k = some .closing) : ∃ l, Matches ps l k := by
  induction h with
  | nil => exact absurd hj (Nat.not_lt.mpr hi)
  | @text i j p ss place part rest ih =>
    obtain rfl | hlt := Nat.eq_or_lt_of_le hi
    · simp [partAt, place, part] at hk
    · exact ih hlt hj
  | parent part rest ih =>
    obtain rfl | hlt := Nat.eq_or_lt_of_le hi
    · exact nomatch part.symm.trans hk
    · exact ih hlt hj
  | @block i j m name children ss part partner content rest ihcontent ihrest =>
    obtain rfl | hlt := Nat.eq_or_lt_of_le hi
    · exact nomatch part.symm.trans hk
    · obtain hin | rfl | hout := Nat.lt_trichotomy k m
      · exact ihcontent hlt hin
      · exact ⟨i, partner⟩
      · exact ihrest hout hj
  | unclosed place part alone rest ih =>
    obtain rfl | hlt := Nat.eq_or_lt_of_le hi
    · simp [partAt, place, part] at hk
    · exact ih hlt hj

theorem Between.flatten (h : Between ps i j ss) :
    (Segment.flattenAll ss).toList = (List.Ico i j).flatMap (kept ps) := by
  induction h with
  | nil => rw [List.Ico.self_empty]; rfl
  | text place part rest ih =>
    rw [List.Ico.eq_cons rest.le, List.flatMap_cons, ← ih, kept_of_place place, part]
    exact String.toList_append
  | parent part rest ih =>
    obtain ⟨p, place, hp⟩ := Option.map_eq_some_iff.mp part
    rw [List.Ico.eq_cons rest.le, List.flatMap_cons, ← ih, kept_of_place place, hp]
    rfl
  | block part partner content rest ihcontent ihrest =>
    obtain ⟨p, place, hp⟩ := Option.map_eq_some_iff.mp part
    obtain ⟨q, hplace, hq⟩ := Option.map_eq_some_iff.mp partner.closing
    rw [ico_block partner.opening.1 rest.le, List.flatMap_cons, List.flatMap_append,
      List.flatMap_cons, ← ihcontent, ← ihrest, kept_of_place place, hp, kept_of_place hplace, hq]
    dsimp only
    rw [if_pos partner.matched]
    exact String.toList_append
  | unclosed place part alone rest ih =>
    rw [List.Ico.eq_cons rest.le, List.flatMap_cons, ← ih, kept_of_place place, part]
    dsimp only
    rw [if_neg alone]
    exact String.toList_append

theorem Between.blocks (h : Between ps i j ss) :
    List.Forall₂ (fun i b => partAt ps i = some (.opening b.1) ∧
        ∃ j, Matches ps i j ∧ Between ps (i + 1) j b.2)
      ((List.Ico i j).filter (Matched ps ·)) (Segment.blocksOf ss) := by
  induction h with
  | nil => rw [List.Ico.self_empty]; exact .nil
  | text place part rest ih =>
    have hnot := not_matched (part ▸ partAt_of_place place) (by simp)
    rw [List.Ico.eq_cons rest.le, List.filter_cons_of_neg (by simpa using hnot)]
    exact ih
  | parent part rest ih =>
    rw [List.Ico.eq_cons rest.le,
      List.filter_cons_of_neg (by simpa using not_matched part (by simp))]
    exact ih
  | block part partner content rest ihcontent ihrest =>
    have hclosing := not_matched partner.closing (by simp)
    rw [ico_block partner.opening.1 rest.le,
      List.filter_cons_of_pos (by simpa using partner.matched), List.filter_append,
      List.filter_cons_of_neg (by simpa using hclosing)]
    exact .cons ⟨part, _, partner, content⟩ (List.rel_append ihcontent ihrest)
  | unclosed place part alone rest ih =>
    rw [List.Ico.eq_cons rest.le, List.filter_cons_of_neg (by simpa using alone)]
    exact ih

/-- A page that parses is its source with the block markers as brackets. -/
theorem parse_bracketed {source : String} {d : Document} (h : parse source = .ok d) :
    Bracketed source d (scan [parentMarker, blockMarker] source) := by
  obtain ⟨hparents, before, after, ss, ts, hscan, hbefore, hafter, hsegments⟩ := parse_eq_ok h
  have hwhole : Holds (before ++ after) 0 (before ++ after) := .refl _
  have hend : 0 + before.length + after.length = (before ++ after).length := by simp
  have hread : Between (before ++ after) 0 (before ++ after).length (ss ++ ts) :=
    hbefore.between hwhole.left (hafter.between hwhole.right hend)
  rw [← hscan, ← hsegments] at hread
  constructor
  · exact text_scan _ _
  · exact hparents
  · intro j hj
    obtain ⟨q, hq, -⟩ := Option.map_eq_some_iff.mp hj
    exact hread.closings (Nat.zero_le j) (List.getElem?_eq_some_iff.mp hq).1 hj
  · exact fun ss => ⟨fun hss => hss.unique hread, fun hss => hss ▸ hread⟩
  · rw [← List.Ico.zero_bot]
    exact hread.blocks
  · rw [← List.Ico.zero_bot]
    exact hread.flatten

/-- A page with a parent, a marker that is never closed, and a block behind it. -/
def unclosedPage : String := "\x7b! r !\x7d\x7b? a ?\x7dx\x7b? b ?\x7dy\x7b? endblock ?\x7d"

theorem parse_unclosedPage : parse unclosedPage =
    .ok ⟨["r"], [.text "\x7b? a ?\x7d", .text "x", .block "b" [.text "y"]]⟩ := by rfl

theorem parse_bracketed_unclosed :
    ∃ d, parse unclosedPage = .ok d ∧
      Bracketed unclosedPage d (scan [parentMarker, blockMarker] unclosedPage) :=
  ⟨_, parse_unclosedPage, parse_bracketed parse_unclosedPage⟩

end Stencil.Document
