/-! Tables: entries in increasing order of their keys, one for each key. Keys are ordered by
code points. Inserting keeps the order and changes what is found under one key only. -/

namespace Stencil

theorem mem_of_lookup {κ α : Type} [BEq κ] [LawfulBEq κ] {entries : List (κ × α)} {key : κ}
    {value : α} (h : entries.lookup key = some value) : (key, value) ∈ entries := by
  obtain ⟨before, after, rfl, -⟩ := List.lookup_eq_some_iff.1 h
  exact List.mem_append_right _ List.mem_cons_self

theorem lookup_of_mem {κ α : Type} [BEq κ] [LawfulBEq κ] {entries : List (κ × α)} {key : κ}
    {value : α} (hkeys : (entries.map (·.1)).Nodup) (h : (key, value) ∈ entries) :
    entries.lookup key = some value := by
  induction entries with
  | nil => exact absurd h List.not_mem_nil
  | cons e entries ih =>
    rw [List.map_cons, List.nodup_cons] at hkeys
    rcases List.mem_cons.1 h with rfl | h
    · exact List.lookup_cons_self
    · have hne : key ≠ e.1 := by
        rintro rfl
        exact hkeys.1 (List.mem_map.2 ⟨_, h, rfl⟩)
      rw [List.lookup_cons, beq_false_of_ne hne]
      exact ih hkeys.2 h

abbrev Table (α : Type) := List (String × α)

namespace Table

variable {α : Type}

def get? (t : Table α) (key : String) : Option α := t.lookup key

/-- Adds an entry, or replaces the one that has this key. -/
def insert (key : String) (value : α) : Table α → Table α
  | [] => [(key, value)]
  | (k, v) :: rest =>
    if key < k then (key, value) :: (k, v) :: rest
    else if key = k then (key, value) :: rest
    else (k, v) :: insert key value rest

/-- The table of a list of entries, of which a later one replaces an earlier one. -/
def ofEntries (entries : List (String × α)) : Table α :=
  entries.foldl (fun t e => insert e.1 e.2 t) []

def keys (t : Table α) : List String := t.map (·.1)

/-- The keys increase. -/
def Sorted (t : Table α) : Prop := t.keys.Pairwise (· < ·)

theorem mem_keys_insert {key k : String} {value : α} {t : Table α}
    (h : k ∈ (insert key value t).keys) : k = key ∨ k ∈ t.keys := by
  induction t with
  | nil => exact .inl (by simpa [insert, keys] using h)
  | cons e rest ih =>
    simp only [insert] at h
    split at h
    · simpa [keys] using h
    · split at h
      · next hk => simp only [keys, List.map_cons, List.mem_cons] at h ⊢; grind
      · simp only [keys, List.map_cons, List.mem_cons] at h ih ⊢; grind

theorem Sorted.insert {t : Table α} (h : t.Sorted) (key : String) (value : α) :
    (t.insert key value).Sorted := by
  induction t with
  | nil => simp [Table.insert, Sorted, keys]
  | cons e rest ih =>
    obtain ⟨head, tail⟩ := List.pairwise_cons.1 h
    simp only [Table.insert]
    split
    · next hlt =>
      refine List.pairwise_cons.2 ⟨fun k hk => ?_, h⟩
      rcases List.mem_cons.1 hk with rfl | hk
      · exact hlt
      · exact String.lt_trans hlt (head k hk)
    · next hlt =>
      split
      · next heq =>
        subst heq
        exact List.pairwise_cons.2 ⟨head, tail⟩
      · next hne =>
        refine List.pairwise_cons.2 ⟨fun k hk => ?_, ih tail⟩
        rcases mem_keys_insert hk with rfl | hk
        · exact String.not_le.1 fun hle => hne (String.le_antisymm hle (String.not_lt.1 hlt))
        · exact head k hk

theorem sorted_ofEntries (entries : List (String × α)) : (ofEntries entries).Sorted := by
  suffices ∀ t : Table α, t.Sorted →
      (entries.foldl (fun t e => Table.insert e.1 e.2 t) t).Sorted from
    this [] List.Pairwise.nil
  induction entries with
  | nil => exact fun _ h => h
  | cons e entries ih => exact fun t h => ih _ (h.insert e.1 e.2)

theorem mem_keys_ofEntries {entries : List (String × α)} {key : String}
    (h : key ∈ (ofEntries entries).keys) : key ∈ entries.map (·.1) := by
  suffices ∀ t : Table α, key ∈ (entries.foldl (fun t e => insert e.1 e.2 t) t).keys →
      key ∈ t.keys ∨ key ∈ entries.map (·.1) from (this [] h).resolve_left List.not_mem_nil
  clear h
  induction entries with
  | nil => exact fun _ h => .inl h
  | cons e entries ih =>
    intro t h
    rcases ih _ h with h | h
    · rcases mem_keys_insert h with rfl | h
      · exact .inr List.mem_cons_self
      · exact .inl h
    · exact .inr (List.mem_cons_of_mem _ h)

theorem get?_cons (e : String × α) (t : Table α) (key : String) :
    get? (e :: t) key = if key = e.1 then some e.2 else t.get? key := by
  obtain ⟨k, v⟩ := e
  rw [get?, List.lookup_cons]
  by_cases h : key = k
  · rw [if_pos h, beq_iff_eq.2 h]
  · rw [if_neg h, beq_eq_false_iff_ne.2 h]
    rfl

theorem get?_insert (key k : String) (value : α) (t : Table α) :
    (insert key value t).get? k = if k = key then some value else t.get? k := by
  induction t with
  | nil => exact get?_cons ..
  | cons e rest ih =>
    simp only [insert]
    split
    · exact get?_cons ..
    · split
      · next heq =>
        subst heq
        rw [get?_cons, get?_cons]
        split <;> rfl
      · next hne =>
        rw [get?_cons, get?_cons, ih]
        split
        · next hk => rw [if_neg (hk ▸ Ne.symm hne)]
        · rfl

theorem get?_filter_ne (t : Table α) (name key : String) :
    get? (t.filter (·.1 != name)) key = if key = name then none else t.get? key := by
  induction t with
  | nil => exact (ite_self none).symm
  | cons e rest ih =>
    rw [List.filter_cons, get?_cons]
    by_cases hname : e.1 = name
    · rw [if_neg (by simp [hname]), ih]
      split
      · rfl
      · next hkey => rw [if_neg (hname ▸ hkey)]
    · rw [if_pos (by simp [hname]), get?_cons, ih]
      split
      · next hkey => rw [if_neg (hkey ▸ hname)]
      · rfl

/-- Changing what is found under one key changes nothing else. -/
theorem get?_map_at (t : Table α) (name key : String) (f : α → α) :
    get? (t.map fun e => if e.1 = name then (e.1, f e.2) else e) key =
      if key = name then (t.get? name).map f else t.get? key := by
  induction t with
  | nil => exact (ite_self none).symm
  | cons e rest ih =>
    rw [List.map_cons, get?_cons, get?_cons, get?_cons, ih]
    grind

theorem keys_map_at (t : Table α) (name : String) (f : α → α) :
    keys (t.map fun e => if e.1 = name then (e.1, f e.2) else e) = t.keys := by
  rw [keys, keys, List.map_map]
  refine List.map_congr_left fun e _ => ?_
  rw [Function.comp_apply]
  split <;> rfl

/-- Of entries with one key the last one counts. -/
theorem get?_ofEntries (entries : List (String × α)) (key : String) :
    (ofEntries entries).get? key = entries.reverse.lookup key := by
  suffices ∀ t : Table α, (entries.foldl (fun t e => insert e.1 e.2 t) t).get? key =
      (entries.reverse.lookup key).or (t.get? key) by
    rw [ofEntries, this, get?, List.lookup_nil, Option.or_none]
  induction entries with
  | nil => exact fun _ => rfl
  | cons e entries ih =>
    intro t
    have hlast : List.lookup key [e] = if key = e.1 then some e.2 else none := get?_cons e [] key
    rw [List.foldl_cons, ih, get?_insert, List.reverse_cons, List.lookup_append, Option.or_assoc,
      hlast]
    split <;> rfl

theorem get?_of_lt {t : Table α} {key : String} (h : ∀ k ∈ t.keys, key < k) :
    t.get? key = none := by
  induction t with
  | nil => rfl
  | cons e rest ih =>
    obtain ⟨head, tail⟩ := List.forall_mem_cons.1 h
    rw [get?_cons, if_neg, ih tail]
    rintro rfl
    exact String.lt_irrefl _ head

theorem Sorted.get?_of_lt_head {e : String × α} {rest : Table α} {key : String}
    (h : Sorted (e :: rest)) (hkey : key < e.1) : get? (e :: rest) key = none := by
  refine get?_of_lt (List.forall_mem_cons.2 ⟨hkey, fun k hk => ?_⟩)
  exact String.lt_trans hkey ((List.pairwise_cons.1 h).1 k hk)

/-- Two tables in which the same is found are the same. -/
theorem Sorted.ext {t u : Table α} (ht : t.Sorted) (hu : u.Sorted)
    (h : ∀ key, t.get? key = u.get? key) : t = u := by
  induction t generalizing u with
  | nil =>
    cases u with
    | nil => rfl
    | cons f u =>
      have hf := h f.1
      rw [get?_cons, if_pos rfl] at hf
      exact nomatch hf
  | cons e t ih =>
    cases u with
    | nil =>
      have he := h e.1
      rw [get?_cons, if_pos rfl] at he
      exact nomatch he
    | cons f u =>
      have hkey : e.1 = f.1 := by
        refine String.le_antisymm (String.not_lt.1 fun hlt => ?_) (String.not_lt.1 fun hlt => ?_)
        · have hf := h f.1
          rw [ht.get?_of_lt_head hlt, get?_cons, if_pos rfl] at hf
          exact nomatch hf
        · have he := h e.1
          rw [hu.get?_of_lt_head hlt, get?_cons, if_pos rfl] at he
          exact nomatch he
      have hvalue := h e.1
      rw [get?_cons, if_pos rfl, get?_cons, if_pos hkey] at hvalue
      obtain ⟨thead, ttail⟩ := List.pairwise_cons.1 ht
      obtain ⟨uhead, utail⟩ := List.pairwise_cons.1 hu
      rw [Prod.ext hkey (Option.some.inj hvalue), ih ttail utail fun key => ?_]
      by_cases he : key = e.1
      · rw [he, get?_of_lt thead, hkey, get?_of_lt uhead]
      · have hrest := h key
        rwa [get?_cons, if_neg he, get?_cons, if_neg (hkey ▸ he)] at hrest

theorem Sorted.nodup {t : Table α} (h : t.Sorted) : t.keys.Nodup :=
  List.Pairwise.imp (fun hlt => String.ne_of_lt hlt) h

/-- A table is the table of its own entries. -/
theorem Sorted.ofEntries_eq {t : Table α} (h : t.Sorted) : ofEntries t = t := by
  refine (sorted_ofEntries t).ext h fun key => ?_
  have hreverse : (t.reverse.map (·.1)).Nodup := by
    rw [List.map_reverse]
    exact List.pairwise_reverse.2 (h.nodup.imp Ne.symm)
  rw [get?_ofEntries]
  cases hkey : t.get? key with
  | some value => exact lookup_of_mem hreverse (List.mem_reverse.2 (mem_of_lookup hkey))
  | none =>
    rw [get?, List.lookup_eq_none_iff] at hkey
    exact List.lookup_eq_none_iff.2 fun e he => hkey e (List.mem_reverse.1 he)

end Table

end Stencil
