import Stencil.Proofs.Template.Arena

/-! The numbers in an outline. They count the nodes in the order of the source, every node but the
root is a child of exactly one earlier one, and a conditional names its children before and behind
its first `else` marker as its branches. -/

namespace Stencil

/-- The nodes inside a node. -/
def Node.body : Node → List Node
  | .array _ body => body
  | .conditional _ _ before after => before ++ after
  | _ => []

/-- What a node is apart from the nodes inside it. -/
def Node.top : Node → Compile.Opened
  | .text s => .node (.text s)
  | .variable name => .node (.variable name)
  | .array items _ => .block (.array items)
  | .conditional header test _ _ => .block (.conditional header test)
  | .elseMark => .node .elseMark

namespace Outline

/-- What an entry is apart from the nodes inside it; the root is nothing else. -/
def Entry.top? (e : Entry) : Option Compile.Opened :=
  match e.shape with
  | .root => none
  | .text s => some (.node (.text s))
  | .variable name => some (.node (.variable name))
  | .array items => some (.block (.array items))
  | .conditional header test _ _ => some (.block (.conditional header test))
  | .elseMark => some (.node .elseMark)

/-- A node that parts its body, if it does, at the first `else` marker. -/
def PartsAtElse : Node → Prop
  | .conditional _ _ before after =>
    (∀ n ∈ before, n.isElse = false) ∧ ∀ n ∈ after.head?, n.isElse = true
  | _ => True

/-- All of the nodes, and all nodes inside them. -/
inductive Throughout (P : Node → Prop) : List Node → Prop
  | nil : Throughout P []
  | cons {n : Node} {ns : List Node} (top : P n) (body : Throughout P n.body)
      (others : Throughout P ns) : Throughout P (n :: ns)

def Entry.isElse (e : Entry) : Bool :=
  match e.shape with
  | .elseMark => true
  | _ => false

/-- Whether the entry with this number is an `else` marker. -/
def elseAt (arena : List Entry) (id : Nat) : Bool :=
  match arena[id]? with
  | some e => e.isElse
  | none => false

/-- The branches of a conditional are its children before the first `else` marker and those behind
it, without the `else` markers. -/
def Entry.Branches (arena : List Entry) (e : Entry) : Prop :=
  ∀ header test yes no, e.shape = .conditional header test yes no →
    yes = e.children.takeWhile (!elseAt arena ·) ∧
      no = (e.children.dropWhile (!elseAt arena ·)).filter (!elseAt arena ·) ∧
      (∀ id ∈ yes ++ no, elseAt arena id = false) ∧
      yes ++ no = e.children.filter (!elseAt arena ·)

/-- The numbers met on a walk from an entry on: its own, and then those met from each of its
children in turn. At most `depth` entries stand in one another. -/
def walk (arena : List Entry) : (depth : Nat) → Nat → List Nat
  | 0, _ => []
  | depth + 1, id =>
    match arena[id]? with
    | some e => id :: e.children.flatMap (walk arena depth)
    | none => []

/-! Lists of nodes. -/

theorem sizes_append (ms ns : List Node) : sizes (ms ++ ns) = sizes ms + sizes ns := by
  induction ms with
  | nil => simp [sizes]
  | cons m ms ih => simp [sizes, ih, Nat.add_assoc]

theorem ids_append (next : Nat) (ms ns : List Node) :
    ids next (ms ++ ns) = ids next ms ++ ids (next + sizes ms) ns := by
  induction ms generalizing next with
  | nil => simp [ids, number, sizes]
  | cons m ms ih => simp [ids_cons, ih, sizes, Nat.add_assoc]

theorem entriesList_append (next : Nat) (ms ns : List Node) :
    entriesList next (ms ++ ns) = entriesList next ms ++ entriesList (next + sizes ms) ns := by
  induction ms generalizing next with
  | nil => simp [entriesList, sizes]
  | cons m ms ih => simp [entriesList, ih, sizes, Nat.add_assoc]

theorem size_eq (n : Node) : size n = sizes n.body + 1 := by
  cases n with
  | conditional _ _ before after => rw [size, Node.body, sizes_append]
  | _ => simp [size, sizes, Node.body]

/-- What holds of no nodes, and of nodes when it holds inside the first one and of the others,
holds of all lists of nodes. -/
@[elab_as_elim]
theorem forest_induction {motive : List Node → Prop} (nil : motive [])
    (cons : ∀ n ns, motive n.body → motive ns → motive (n :: ns)) (ns : List Node) :
    motive ns := by
  induction hsize : sizes ns using Nat.strongRecOn generalizing ns with
  | _ k ih =>
    subst hsize
    cases ns with
    | nil => exact nil
    | cons n ns =>
      have hn := size_eq n
      apply cons
      · exact ih _ (by rw [sizes]; omega) n.body rfl
      · exact ih _ (by rw [sizes]; omega) ns rfl

/-- The entries of a node: its own, with the numbers of the nodes inside it, and theirs. -/
theorem entries_eq (id : Nat) (n : Node) : ∃ shape,
    entries id n = ⟨id, shape, ids (id + 1) n.body⟩ :: entriesList (id + 1) n.body ∧
      Entry.top? ⟨id, shape, ids (id + 1) n.body⟩ = some n.top ∧
      (n.body ≠ [] → Entry.opensScope ⟨id, shape, ids (id + 1) n.body⟩) := by
  cases n with
  | conditional header test before after =>
    refine ⟨.conditional header test (branchIds (id + 1) before)
      (branchIds (id + 1 + sizes before) after), ?_, rfl, fun _ => rfl⟩
    rw [entries, Node.body, ids_append, entriesList_append]
  | array items body => exact ⟨.array items, by rw [entries, Node.body], rfl, fun _ => rfl⟩
  | text s => exact ⟨.text s, rfl, rfl, fun h => absurd rfl h⟩
  | «variable» name => exact ⟨.variable name, rfl, rfl, fun h => absurd rfl h⟩
  | elseMark => exact ⟨.elseMark, rfl, rfl, fun h => absurd rfl h⟩

theorem mem_entriesList_cons {next : Nat} {n : Node} {ns : List Node} {e first : Entry}
    (h : entries next n = first :: entriesList (next + 1) n.body) :
    e ∈ entriesList next (n :: ns) ↔
      e = first ∨ e ∈ entriesList (next + 1) n.body ∨ e ∈ entriesList (next + size n) ns := by
  rw [entriesList, h, List.cons_append, List.mem_cons, List.mem_append]

/-! Numbers. -/

section

variable {arena : List Entry} {next depth : Nat} {ns : List Node}

theorem range'_cons_append (next k l : Nat) :
    next :: (List.range' (next + 1) k ++ List.range' (next + (k + 1)) l) =
      List.range' next (k + 1 + l) := by
  rw [← List.range'_append_1, List.range'_succ, List.cons_append]

theorem id_entriesList (next : Nat) (ns : List Node) :
    (entriesList next ns).map (·.id) = List.range' next (sizes ns) := by
  induction ns using forest_induction generalizing next with
  | nil => rfl
  | cons n ns ihbody ih =>
    obtain ⟨shape, he, -⟩ := entries_eq next n
    rw [entriesList, he, sizes, size_eq, ← range'_cons_append]
    simp [ihbody, ih]

/-- Every node is at the top or a child, and that once. -/
theorem children_entriesList (next : Nat) (ns : List Node) :
    (ids next ns ++ (entriesList next ns).flatMap (·.children)).Perm
      (List.range' next (sizes ns)) := by
  induction ns using forest_induction generalizing next with
  | nil => exact .nil
  | cons n ns ihbody ih =>
    obtain ⟨shape, he, -⟩ := entries_eq next n
    rw [entriesList, he, sizes, size_eq, ← range'_cons_append, ids_cons, size_eq]
    have hparts := (ihbody (next + 1)).append (ih (next + (sizes n.body + 1)))
    simp only [List.cons_append, List.flatMap_cons, List.flatMap_append]
    apply List.Perm.cons
    refine List.Perm.trans ?_ hparts
    -- the children of the node stand behind the other numbers at the top
    have hswap := List.perm_append_comm_assoc (ids (next + (sizes n.body + 1)) ns)
      (ids (next + 1) n.body ++ (entriesList (next + 1) n.body).flatMap (·.children))
      ((entriesList (next + (sizes n.body + 1)) ns).flatMap (·.children))
    simpa only [List.append_assoc] using hswap

theorem le_of_mem_ids {id : Nat} (h : id ∈ ids next ns) : next ≤ id := by
  have hmem := (children_entriesList next ns).subset (List.mem_append_left _ h)
  exact (List.mem_range'_1.1 hmem).1

theorem id_lt_children {e : Entry} (h : e ∈ entriesList next ns) {id : Nat}
    (hid : id ∈ e.children) : e.id < id := by
  induction ns using forest_induction generalizing next with
  | nil => cases h
  | cons n ns ihbody ih =>
    obtain ⟨shape, he, -⟩ := entries_eq next n
    rcases (mem_entriesList_cons he).1 h with rfl | h | h
    · exact le_of_mem_ids hid
    · exact ihbody h
    · exact ih h

theorem opensScope_of_children {e : Entry} (h : e ∈ entriesList next ns)
    (hne : e.children ≠ []) : e.opensScope := by
  induction ns using forest_induction generalizing next with
  | nil => cases h
  | cons n ns ihbody ih =>
    obtain ⟨shape, he, -, hopens⟩ := entries_eq next n
    rcases (mem_entriesList_cons he).1 h with rfl | h | h
    · apply hopens
      intro hbody
      rw [hbody] at hne
      exact hne rfl
    · exact ihbody h
    · exact ih h

/-- A walk meets the nodes in the order of their numbers. -/
theorem walk_ids (hdepth : sizes ns ≤ depth) (h : Holds arena next (entriesList next ns)) :
    (ids next ns).flatMap (walk arena depth) = List.range' next (sizes ns) := by
  induction ns using forest_induction generalizing next depth with
  | nil => rfl
  | cons n ns ihbody ih =>
    obtain ⟨shape, he, -⟩ := entries_eq next n
    rw [sizes] at hdepth
    have hsize := size_eq n
    obtain ⟨depth, rfl⟩ : ∃ d, depth = d + 1 := ⟨depth - 1, by omega⟩
    have hfirst := holds_first h
    rw [he] at hfirst
    rw [ids_cons, List.flatMap_cons, walk, hfirst.head, ih (by omega) (holds_others h)]
    dsimp only
    rw [ihbody (by omega) hfirst.tail, List.cons_append, hsize, sizes, hsize, range'_cons_append]

/-! Branches. -/

theorem isElse_of_entries {n : Node} {e : Entry} {es : List Entry} (h : entries next n = e :: es) :
    e.isElse = n.isElse := by
  cases n with
  | _ =>
    obtain ⟨rfl, -⟩ := List.cons.inj h
    rfl

/-- The numbers of `else` markers are those of `else` nodes. -/
theorem elseAt_of_mem_number (h : Holds arena next (entriesList next ns)) {id : Nat} {n : Node}
    (hn : (id, n) ∈ number next ns) : elseAt arena id = n.isElse := by
  induction ns generalizing next with
  | nil => cases hn
  | cons m ns ih =>
    rcases List.mem_cons.1 hn with heq | hn
    · obtain ⟨rfl, rfl⟩ := Prod.mk.inj heq
      obtain ⟨e, es, he⟩ := entries_eq_cons id n
      have hget : arena[id]? = some e := (he ▸ holds_first h).head
      rw [elseAt, hget]
      exact isElse_of_entries he
    · exact ih (holds_others h) hn

theorem branchIds_eq (h : Holds arena next (entriesList next ns)) :
    branchIds next ns = (ids next ns).filter (!elseAt arena ·) := by
  rw [branchIds, ids, List.filter_map]
  congr 1
  apply List.filter_congr
  rintro ⟨id, n⟩ hn
  simp [elseAt_of_mem_number h hn]

theorem nodes_number (next : Nat) (ns : List Node) : (number next ns).map (·.2) = ns := by
  induction ns generalizing next with
  | nil => rfl
  | cons n ns ih => rw [number, List.map_cons, ih]

theorem elseAt_of_mem_ids (h : Holds arena next (entriesList next ns))
    (hns : ∀ n ∈ ns, n.isElse = false) {id : Nat} (hid : id ∈ ids next ns) :
    elseAt arena id = false := by
  obtain ⟨⟨_, n⟩, hn, rfl⟩ := List.mem_map.1 hid
  rw [elseAt_of_mem_number h hn]
  have hmem : n ∈ (number next ns).map (·.2) := List.mem_map_of_mem hn
  rw [nodes_number] at hmem
  exact hns n hmem

/-- Numbers of nodes of which the first, if there is one, is an `else` marker. -/
theorem parted_at_head (h : Holds arena next (entriesList next ns))
    (hns : ∀ n ∈ ns.head?, n.isElse = true) :
    (ids next ns).takeWhile (!elseAt arena ·) = [] ∧
      (ids next ns).dropWhile (!elseAt arena ·) = ids next ns := by
  cases ns with
  | nil => exact ⟨rfl, rfl⟩
  | cons n ns =>
    have helse : elseAt arena next = true := by
      rw [elseAt_of_mem_number h List.mem_cons_self]
      exact hns n rfl
    rw [ids_cons]
    simp [helse]

theorem branches_conditional {header : Fragment} {test : Condition} {before after : List Node}
    (hparts : PartsAtElse (.conditional header test before after))
    (hbefore : Holds arena next (entriesList next before))
    (hafter : Holds arena (next + sizes before) (entriesList (next + sizes before) after)) :
    Entry.Branches arena ⟨depth, .conditional header test (branchIds next before)
      (branchIds (next + sizes before) after),
      ids next before ++ ids (next + sizes before) after⟩ := by
  intro _ _ yes no hshape
  obtain ⟨-, -, rfl, rfl⟩ := Shape.conditional.inj hshape
  have hnone : ∀ id ∈ ids next before, (!elseAt arena id) = true := by
    intro id hid
    rw [elseAt_of_mem_ids hbefore hparts.1 hid]
    rfl
  have hyes : branchIds next before = ids next before := by
    rw [branchIds_eq hbefore, List.filter_eq_self.2 hnone]
  obtain ⟨htake, hdrop⟩ := parted_at_head hafter hparts.2
  have hfilter : branchIds next before ++ branchIds (next + sizes before) after =
      (ids next before ++ ids (next + sizes before) after).filter (!elseAt arena ·) := by
    rw [branchIds_eq hbefore, branchIds_eq hafter, List.filter_append]
  refine ⟨?_, ?_, ?_, hfilter⟩
  · rw [List.takeWhile_append_of_pos hnone, htake, List.append_nil, hyes]
  · rw [List.dropWhile_append_of_pos hnone, hdrop, branchIds_eq hafter]
  · intro id hid
    rw [hfilter] at hid
    simpa using (List.mem_filter.1 hid).2

theorem branches_entries {n : Node} {e : Entry} {es : List Entry} (hparts : PartsAtElse n)
    (h : Holds arena next (entries next n)) (he : entries next n = e :: es) :
    e.Branches arena := by
  cases n with
  | conditional header test before after =>
    rw [entries] at h he
    obtain ⟨rfl, -⟩ := List.cons.inj he
    have hafter := h.tail.right
    rw [length_entriesList] at hafter
    exact branches_conditional hparts h.tail.left hafter
  | _ =>
    obtain ⟨rfl, -⟩ := List.cons.inj he
    intro _ _ _ _ hshape
    cases hshape

theorem branches_entriesList (hparts : Throughout PartsAtElse ns)
    (h : Holds arena next (entriesList next ns)) {e : Entry} (he : e ∈ entriesList next ns) :
    e.Branches arena := by
  induction hparts generalizing next with
  | nil => cases he
  | @cons n ns hn _ _ ihbody ih =>
    obtain ⟨shape, hentries, -⟩ := entries_eq next n
    have hfirst := holds_first h
    have hbody := hfirst
    rw [hentries] at hbody
    rcases (mem_entriesList_cons hentries).1 he with rfl | he | he
    · exact branches_entries hn hfirst hentries
    · exact ihbody hbody.tail he
    · exact ih (holds_others h) he

end

end Outline

end Stencil
