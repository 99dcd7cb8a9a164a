import Stencil.Proofs.Files.Ancestors
import Stencil.Proofs.Files.Runs

/-! What a change leaves alone. Writing a file changes no entry but those on the way to it, and it
makes no directory. Making directories only makes those that a path and the paths above it lead to,
so an entry changes only if one of them lies there or below. -/

namespace Stencil

namespace Files

variable {s s' : Store} {path name name' : String} {bytes : ByteArray}
  {loc loc' more more' : Location} {entries : Table Entry}

theorem concat_not_prefix_self (loc : Location) (name : String) : ¬ loc ++ [name] <+: loc := fun h => by
  have hlength := h.length_le
  rw [List.length_append] at hlength
  exact absurd hlength (by simp)

/-- Two locations of which none is the other or lies below it. -/
structure Apart (loc loc' : Location) : Prop where
  notAbove : ¬ loc <+: loc'
  notBelow : ¬ loc' <+: loc

namespace Apart

theorem symm (h : Apart loc loc') : Apart loc' loc := ⟨h.notBelow, h.notAbove⟩

theorem not_prefix_append (h : Apart loc loc') (more : Location) : ¬ loc <+: loc' ++ more :=
  fun hprefix =>
    (List.prefix_or_prefix_of_prefix hprefix (List.prefix_append loc' more)).elim h.notAbove
      h.notBelow

theorem append (h : Apart loc loc') (more more' : Location) :
    Apart (loc ++ more) (loc' ++ more') where
  notAbove hprefix := h.not_prefix_append more' ((List.prefix_append loc more).trans hprefix)
  notBelow hprefix := h.symm.not_prefix_append more ((List.prefix_append loc' more').trans hprefix)

theorem names (hne : name ≠ name') : Apart (loc ++ [name]) (loc ++ [name']) where
  notAbove hprefix :=
    hne (List.cons_prefix_cons.1 ((List.prefix_append_right_inj loc).1 hprefix)).1
  notBelow hprefix :=
    hne (List.cons_prefix_cons.1 ((List.prefix_append_right_inj loc).1 hprefix)).1.symm

theorem of_cons (h : Apart (name :: loc) (name :: loc')) : Apart loc loc' where
  notAbove hprefix := h.notAbove (List.cons_prefix_cons.2 ⟨rfl, hprefix⟩)
  notBelow hprefix := h.notBelow (List.cons_prefix_cons.2 ⟨rfl, hprefix⟩)

end Apart

namespace Entry

variable {e new : Entry}

/-- What lies apart from an entry stays when that is put. -/
theorem get?_set_apart (h : Apart loc more) : (e.set loc new).get? more = e.get? more := by
  induction loc generalizing e more with
  | nil => exact absurd List.nil_prefix h.notAbove
  | cons name rest ih =>
    cases more with
    | nil => exact absurd List.nil_prefix h.notBelow
    | cons k more =>
      cases e with
      | file => rfl
      | directory entries =>
        simp only [set, Entry.get?, Table.get?_insert]
        split
        · next hk =>
          subst hk
          rw [Option.bind_some, ih h.of_cons]
          cases Table.get? entries k with
          | some e => rfl
          | none =>
            cases more with
            | nil => exact absurd List.nil_prefix h.of_cons.notBelow
            | cons name more => rfl
        · rfl

/-- What lies above an entry is a directory. -/
theorem directory_above {old : Entry}
    (h : e.get? (loc ++ name :: more) = some old) :
    ∃ entries, e.get? loc = some (directory entries) := by
  rw [get?_append] at h
  obtain ⟨d, hloc, hmore⟩ := Option.bind_eq_some_iff.1 h
  cases d with
  | file => exact nomatch hmore
  | directory entries => exact ⟨entries, hloc⟩

end Entry

/-! Files. -/

theorem get?_write (h : s.write path bytes = .ok s') (hapart : Apart (s.address path) loc) :
    s'.top.get? loc = s.top.get? loc := by
  obtain ⟨place, -, -, -, rfl⟩ := Store.write_eq_ok h
  exact Entry.get?_set_apart hapart

/-- What lies above the place that a path leads to is a directory. -/
theorem directory_on_way {place : Place} (h : s.locate path = .ok place)
    (habove : loc <+: s.address path) (hne : loc ≠ s.address path) :
    ∃ entries, s.top.get? loc = some (.directory entries) := by
  obtain ⟨rest, hrest⟩ := habove
  have hlocation := Store.location_of_locate h
  cases rest with
  | nil => exact absurd ((List.append_nil loc).symm.trans hrest) hne
  | cons name rest =>
    cases place with
    | taken found e =>
      obtain rfl : found = loc ++ name :: rest := hlocation.trans hrest.symm
      exact Entry.directory_above (Store.get?_of_locate h)
    | free found =>
      obtain ⟨above, last, entries, rfl, hdirectory, -⟩ :=
        follow_free (Store.locate_eq_ok h).2 rfl
      have hlast : above ++ [last] = loc ++ name :: rest := hlocation.trans hrest.symm
      have hprefix := List.prefix_concat_iff.1 (hlast ▸ List.prefix_append loc (name :: rest))
      obtain ⟨more, rfl⟩ : loc <+: above := by
        refine hprefix.resolve_left ?_
        rintro rfl
        exact hne (hlast.trans hrest)
      cases more with
      | nil => exact ⟨entries, by rwa [List.append_nil] at hdirectory⟩
      | cons name more => exact Entry.directory_above hdirectory

/-- Writing a file makes no directory. -/
theorem directory_of_writeAt {stamp : Stamp} (h : s.writeAt path bytes stamp = .ok s')
    (hloc : s'.top.get? loc = some (.directory entries)) :
    ∃ entries', s.top.get? loc = some (.directory entries') := by
  obtain ⟨place, hplace, -, -, rfl⟩ := Store.writeAt_eq_ok h
  have hself := get?_put hplace (.file bytes stamp)
  by_cases hbelow : s.address path <+: loc
  · obtain ⟨rest, rfl⟩ := hbelow
    rw [Entry.get?_append, hself] at hloc
    cases rest with
    | nil => exact nomatch hloc
    | cons => exact nomatch hloc
  · by_cases habove : loc <+: s.address path
    · exact directory_on_way hplace habove fun heq => hbelow (heq ▸ List.prefix_rfl)
    · exact ⟨entries, (Entry.get?_set_apart ⟨hbelow, habove⟩).symm.trans hloc⟩

theorem directory_of_write (h : s.write path bytes = .ok s')
    (hloc : s'.top.get? loc = some (.directory entries)) :
    ∃ entries', s.top.get? loc = some (.directory entries') :=
  directory_of_writeAt h hloc

/-! Directories. -/

theorem get?_makeDirectory (h : s.makeDirectory path = .ok s') (habove : ¬ loc <+: s.address path) :
    s'.top.get? loc = s.top.get? loc := by
  obtain ⟨hplace, rfl⟩ := Store.makeDirectory_eq_ok h
  by_cases hbelow : s.address path <+: loc
  · obtain ⟨rest, rfl⟩ := hbelow
    cases rest with
    | nil => exact absurd (by simp) habove
    | cons name rest =>
      rw [Entry.get?_append, get?_put hplace, Entry.get?_append, get?_of_free hplace]
      rfl
  · exact Entry.get?_set_apart ⟨hbelow, habove⟩

/-- An entry changes only if the path leads through it. -/
theorem get?_makeWithParents {depth : Nat} (h : ¬ s.LeadsThrough path loc) :
    ((makeWithParents depth path).run s).2.top.get? loc = s.top.get? loc := by
  have hself : ¬ loc <+: s.address path := fun hprefix => h ⟨path, .self, hprefix⟩
  induction depth generalizing path s with
  | zero => rfl
  | succ depth ih =>
    rw [run_makeWithParents_succ]
    split
    · rfl
    · split
      · next s' hmake => exact get?_makeDirectory hmake hself
      · split
        · rfl
        · next up hparent =>
          have hnotUp : ¬ s.LeadsThrough up loc := fun hup => h (.of_parent hparent hup)
          have hup := ih hnotUp fun hprefix => hnotUp ⟨up, .self, hprefix⟩
          have haddress : ((makeWithParents depth up).run s).2.address path = s.address path :=
            (evolves_makeWithParents depth up s).address_eq path
          rw [makeBelow, Action.run_bind]
          split
          · next between hrun =>
            rw [hrun] at hup haddress
            rw [run_unless]
            split
            · exact hup
            · rw [Action.run_change]
              split
              · next s' hmake =>
                refine (get?_makeDirectory hmake ?_).trans hup
                rw [show between.address path = s.address path from haddress]
                exact hself
              · exact hup
          · next hrun =>
            rw [hrun] at hup
            exact hup
      · split <;> rfl

theorem get?_makeDirectories (h : ¬ s.LeadsThrough path loc) :
    ((makeDirectories path).run s).2.top.get? loc = s.top.get? loc :=
  get?_makeWithParents h

end Files

end Stencil
