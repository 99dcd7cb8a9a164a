import Stencil.Files.Store

/-! File trees under change. Putting an entry at a location changes what is there and below it;
everything else stays, but for the entries of the directories that lead there. -/

namespace Stencil.Files

/-- A name that an entry of a directory can have. -/
structure IsName (name : String) : Prop where
  busy : Path.isIdle name = false
  down : name ≠ ".."
  whole : '/' ∉ name.toList

instance (name : String) : Decidable (IsName name) :=
  decidable_of_iff (Path.isIdle name = false ∧ name ≠ ".." ∧ '/' ∉ name.toList)
    ⟨fun h => ⟨h.1, h.2.1, h.2.2⟩, fun h => ⟨h.busy, h.down, h.whole⟩⟩

namespace Entry

/-- All directories are tables of names. -/
inductive Sound : Entry → Prop where
  | file {bytes : ByteArray} {stamp : Stamp} : Sound (file bytes stamp)
  | directory {entries : Table Entry} (sorted : entries.Sorted)
    (names : ∀ name ∈ entries.keys, IsName name)
    (inner : ∀ name e, entries.get? name = some e → Sound e) : Sound (directory entries)

variable {e new old : Entry} {loc above more : Location} {name : String} {bytes : ByteArray}
  {stamp : Stamp} {entries : Table Entry}

theorem sound_empty : Sound empty :=
  .directory .nil (fun _ h => absurd h List.not_mem_nil) fun _ _ h => nomatch h

theorem Sound.get? (h : e.Sound) (hget : e.get? loc = some old) : old.Sound := by
  induction loc generalizing e with
  | nil => exact Option.some.inj hget ▸ h
  | cons name rest ih =>
    cases h with
    | file => exact nomatch hget
    | directory _ _ inner =>
      obtain ⟨e', hname, hrest⟩ := Option.bind_eq_some_iff.1 hget
      exact ih (inner name e' hname) hrest

theorem Sound.set (h : e.Sound) (hnew : new.Sound) (hloc : ∀ name ∈ loc, IsName name) :
    (e.set loc new).Sound := by
  induction loc generalizing e with
  | nil => exact hnew
  | cons name rest ih =>
    cases h with
    | file => exact .file
    | @directory entries sorted names inner =>
      obtain ⟨hname, hrest⟩ := List.forall_mem_cons.1 hloc
      have hold : ((Table.get? entries name).getD empty).Sound := by
        cases hget : Table.get? entries name with
        | none => exact sound_empty
        | some e => exact inner name e hget
      refine .directory (sorted.insert _ _) (fun k hk => ?_) fun k e hk => ?_
      · obtain rfl | hk := Table.mem_keys_insert hk
        · exact hname
        · exact names k hk
      · rw [Table.get?_insert] at hk
        split at hk
        · exact Option.some.inj hk ▸ ih hold hrest
        · exact inner k e hk

/-! What is found after a change. -/

theorem get?_set_free (h : e.get? above = some (directory entries)) :
    (e.set (above ++ [name]) new).get? (above ++ [name]) = some new := by
  induction above generalizing e with
  | nil =>
    obtain rfl := Option.some.inj h
    simp [set, Entry.get?, Table.get?_insert]
  | cons first rest ih =>
    cases e with
    | file => simp [Entry.get?] at h
    | directory es =>
      obtain ⟨e', hfirst, hrest⟩ := Option.bind_eq_some_iff.1 h
      simp only [List.cons_append, set, Entry.get?, Table.get?_insert, if_pos, hfirst,
        Option.getD_some, Option.bind_some]
      exact ih hrest

theorem get?_set_self (h : e.get? loc = some old) : (e.set loc new).get? loc = some new := by
  obtain rfl | ⟨above, name, rfl⟩ := List.eq_nil_or_concat loc
  · cases e <;> rfl
  · rw [List.concat_eq_append] at h ⊢
    rw [get?_append] at h
    obtain ⟨d, habove, hname⟩ := Option.bind_eq_some_iff.1 h
    cases d with
    | file => exact nomatch hname
    | directory entries => exact get?_set_free habove

theorem get?_empty_ne_file : empty.get? loc ≠ some (file bytes stamp) := by
  cases loc <;> simp [empty, Entry.get?, Table.get?]

/-- Files elsewhere are what they were. -/
theorem get?_set_file (h : ¬ loc <+: more) :
    (e.set loc new).get? more = some (file bytes stamp) ↔
      e.get? more = some (file bytes stamp) := by
  induction loc generalizing e more with
  | nil => exact absurd List.nil_prefix h
  | cons name rest ih =>
    cases e with
    | file => rfl
    | directory entries =>
      cases more with
      | nil => simp [set, Entry.get?]
      | cons k more =>
        simp only [set, Entry.get?, Table.get?_insert]
        split
        · next hk =>
          subst hk
          have hrest : ¬ rest <+: more := fun hp => h (List.cons_prefix_cons.2 ⟨rfl, hp⟩)
          rw [Option.bind_some, ih hrest]
          cases Table.get? entries k with
          | some e => rfl
          | none => simpa using get?_empty_ne_file
        · rfl

/-- Directories elsewhere stay directories. -/
theorem get?_set_directory (h : ¬ loc <+: more) (hget : e.get? more = some (directory entries)) :
    ∃ entries', (e.set loc new).get? more = some (directory entries') := by
  induction loc generalizing e more with
  | nil => exact absurd List.nil_prefix h
  | cons name rest ih =>
    cases e with
    | file => exact ⟨entries, hget⟩
    | directory es =>
      cases more with
      | nil => exact ⟨_, rfl⟩
      | cons k more =>
        simp only [Entry.get?] at hget
        simp only [set, Entry.get?, Table.get?_insert]
        split
        · next hk =>
          subst hk
          obtain ⟨e, hk, hmore⟩ := Option.bind_eq_some_iff.1 hget
          have hrest : ¬ rest <+: more := fun hp => h (List.cons_prefix_cons.2 ⟨rfl, hp⟩)
          rw [hk, Option.bind_some]
          exact ih hrest hmore
        · exact ⟨entries, hget⟩

end Entry

end Stencil.Files
