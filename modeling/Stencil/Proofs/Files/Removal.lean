import Stencil.Proofs.Files.Changes

/-! Removing a file. It goes from its directory, and no other file and no directory comes, goes or
changes. -/

namespace Stencil

namespace Files

variable {s s' : Store} {e : Entry} {loc more : Location} {path : String} {bytes : ByteArray}
  {stamp : Stamp} {entries : Table Entry}

namespace Entry

theorem remove_below (entries : Table Entry) (name next : String) (rest : Location) :
    (directory entries).remove (name :: next :: rest) =
      directory (entries.map fun e => if e.1 = name then (e.1, e.2.remove (next :: rest)) else e) := by
  rw [Entry.remove]
  exact nofun

theorem Sound.remove (h : e.Sound) (loc : Location) : (e.remove loc).Sound := by
  induction loc generalizing e with
  | nil => cases e <;> exact h
  | cons name rest ih =>
    cases h with
    | file => cases rest <;> exact .file
    | @directory entries sorted names inner =>
      cases rest with
      | nil =>
        have hkeys : (Table.keys (entries.filter (·.1 != name))).Sublist entries.keys :=
          List.filter_sublist.map _
        refine .directory (sorted.sublist hkeys) (fun k hk => names k (hkeys.subset hk)) ?_
        intro k e hk
        rw [Table.get?_filter_ne] at hk
        split at hk
        · exact nomatch hk
        · exact inner k e hk
      | cons next rest =>
        have hkeys := Table.keys_map_at entries name (·.remove (next :: rest))
        refine .directory ?_ (fun k hk => names k (hkeys ▸ hk)) fun k e hk => ?_
        · rw [Table.Sorted, hkeys]
          exact sorted
        · rw [Table.get?_map_at entries name k (·.remove (next :: rest))] at hk
          split at hk
          · obtain ⟨old, hold, rfl⟩ := Option.map_eq_some_iff.1 hk
            exact ih (inner name old hold)
          · exact inner k e hk

/-- What a file holds, and nothing for a directory. -/
def held? : Entry → Option (ByteArray × Stamp)
  | file bytes stamp => some (bytes, stamp)
  | directory _ => none

/-- Elsewhere there is what there was, except that directories may hold less. -/
theorem held?_remove (hfile : e.get? loc = some (file bytes stamp)) (hne : more ≠ loc) :
    ((e.remove loc).get? more).map held? = (e.get? more).map held? := by
  induction loc generalizing e more with
  | nil => cases e <;> rfl
  | cons name rest ih =>
    cases e with
    | file => exact nomatch hfile
    | directory entries =>
      obtain ⟨old, hold, hrest⟩ := Option.bind_eq_some_iff.1 hfile
      cases more with
      | nil => cases rest <;> rfl
      | cons k more =>
        cases rest with
        | nil =>
          rw [Entry.remove, Entry.get?, Entry.get?, Table.get?_filter_ne]
          split
          · next hk =>
            -- nothing lies below a file
            subst hk
            obtain rfl : old = file bytes stamp := Option.some.inj hrest
            have hmore : more ≠ [] := fun h => hne (h ▸ rfl)
            obtain ⟨next, more, rfl⟩ := List.exists_cons_of_ne_nil hmore
            rw [hold]
            rfl
          · rfl
        | cons next rest =>
          rw [remove_below, Entry.get?, Entry.get?,
            Table.get?_map_at entries name k (·.remove (next :: rest))]
          split
          · next hk =>
            subst hk
            rw [hold]
            exact ih hrest fun h => hne (h ▸ rfl)
          · rfl

/-- Where the file was, there is no directory. -/
theorem get?_remove_self (hfile : e.get? loc = some (file bytes stamp)) (entries : Table Entry) :
    (e.remove loc).get? loc ≠ some (directory entries) := by
  induction loc generalizing e with
  | nil =>
    obtain rfl := Option.some.inj hfile
    intro hdirectory
    cases hdirectory
  | cons name rest ih =>
    cases e with
    | file => cases hfile
    | directory es =>
      obtain ⟨old, hold, hrest⟩ := Option.bind_eq_some_iff.1 hfile
      cases rest with
      | nil =>
        rw [Entry.remove, Entry.get?, Table.get?_filter_ne, if_pos rfl]
        intro hdirectory
        cases hdirectory
      | cons next rest =>
        rw [remove_below, Entry.get?, Table.get?_map_at es name name (·.remove (next :: rest)),
          if_pos rfl, hold]
        exact ih hrest

theorem get?_eq_file_iff {found : Option Entry} : found = some (file bytes stamp) ↔
    found.map held? = some (some (bytes, stamp)) := by
  rcases found with _ | ⟨bytes', stamp'⟩ | entries <;> simp [held?]

theorem get?_eq_directory_iff {found : Option Entry} :
    (∃ entries, found = some (directory entries)) ↔ found.map held? = some none := by
  rcases found with _ | ⟨bytes', stamp'⟩ | entries <;> simp [held?]

end Entry

theorem Store.remove_eq_ok (h : s.remove path = .ok s') : ∃ bytes stamp,
    s.top.get? (s.address path) = some (.file bytes stamp) ∧
      s' = ⟨s.top.remove (s.address path), s.here, s.clock⟩ := by
  obtain ⟨place, hplace, hrest⟩ := bind_eq_ok h
  have hlocation := Store.location_of_locate hplace
  cases place with
  | free loc => exact nomatch hrest
  | taken loc e =>
    obtain rfl : loc = s.address path := hlocation
    cases e with
    | directory entries => exact nomatch hrest
    | file bytes stamp =>
      dsimp only at hrest
      split at hrest
      · exact nomatch hrest
      · exact ⟨bytes, stamp, Store.get?_of_locate hplace, (Except.ok.inj hrest).symm⟩

/-- Directories stay when a file is removed, and none comes. -/
theorem directory_remove_iff (h : s.remove path = .ok s') (loc : Location) :
    (∃ entries, s'.top.get? loc = some (.directory entries)) ↔
      ∃ entries, s.top.get? loc = some (.directory entries) := by
  obtain ⟨bytes, stamp, hfile, rfl⟩ := Store.remove_eq_ok h
  by_cases hloc : loc = s.address path
  · subst hloc
    have hnow := Entry.get?_remove_self hfile
    simp only [hfile]
    constructor
    · rintro ⟨entries, hentries⟩
      exact absurd hentries (hnow entries)
    · rintro ⟨entries, hentries⟩
      exact nomatch hentries
  · rw [Entry.get?_eq_directory_iff, Entry.get?_eq_directory_iff, Entry.held?_remove hfile hloc]

theorem evolves_remove (h : s.remove path = .ok s') : Evolves (· = s.address path) s s' := by
  have hdirectory := directory_remove_iff h
  obtain ⟨bytes, stamp, hfile, rfl⟩ := Store.remove_eq_ok h
  refine ⟨rfl, fun hs => ⟨hs.top.remove _, hs.here⟩, ?_, ?_⟩
  · exact fun loc entries hloc => (hdirectory loc).2 ⟨entries, hloc⟩
  · intro loc bytes' stamp' hloc
    rw [Entry.get?_eq_file_iff, Entry.get?_eq_file_iff, Entry.held?_remove hfile hloc]

end Files

end Stencil
