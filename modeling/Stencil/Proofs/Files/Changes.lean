import Stencil.Fallible
import Stencil.Proofs.Files.Address

/-! What changes do to a store. Writing changes one file, making directories changes none, and no
change removes a directory; what is read from anywhere else stays what it was. -/

namespace Stencil.Files

/-- What a store can become by changes to the files at some locations and by new directories. -/
structure Evolves (within : Location → Prop) (s s' : Store) : Prop where
  here : s'.here = s.here
  sound : s.Sound → s'.Sound
  directories : s.KeepsDirectories s'
  files (loc : Location) (bytes : ByteArray) (stamp : Stamp) : ¬ within loc →
    (s'.top.get? loc = some (.file bytes stamp) ↔ s.top.get? loc = some (.file bytes stamp))

variable {within within' : Location → Prop} {s s' s'' : Store} {path text : String} {place : Place}
  {new : Entry} {bytes : ByteArray} {stamp : Stamp} {loc : Location}

namespace Evolves

theorem refl (within : Location → Prop) (s : Store) : Evolves within s s :=
  ⟨rfl, id, fun _ entries h => ⟨entries, h⟩, fun _ _ _ _ => Iff.rfl⟩

theorem trans (h : Evolves within s s') (h' : Evolves within s' s'') : Evolves within s s'' where
  here := h'.here.trans h.here
  sound hs := h'.sound (h.sound hs)
  directories loc entries hloc :=
    let ⟨entries', hloc'⟩ := h.directories loc entries hloc
    h'.directories loc entries' hloc'
  files loc bytes stamp hloc := (h'.files loc bytes stamp hloc).trans (h.files loc bytes stamp hloc)

theorem mono (h : Evolves within s s') (hwithin : ∀ loc, within loc → within' loc) :
    Evolves within' s s' :=
  ⟨h.here, h.sound, h.directories, fun loc bytes stamp hloc =>
    h.files loc bytes stamp fun hin => hloc (hwithin loc hin)⟩

theorem address_eq (h : Evolves within s s') (path : String) : s'.address path = s.address path :=
  Store.address_eq h.here path

end Evolves

/-! Putting an entry where a path leads. -/

theorem get?_put (h : s.locate path = .ok place) (new : Entry) :
    (s.put (s.address path) new).top.get? (s.address path) = some new := by
  rw [← Store.location_of_locate h]
  cases place with
  | taken loc e => exact Entry.get?_set_self (Store.get?_of_locate h)
  | free loc =>
    obtain ⟨above, name, entries, rfl, habove, -⟩ := follow_free (Store.locate_eq_ok h).2 rfl
    exact Entry.get?_set_free habove

theorem get?_of_free (h : s.locate path = .ok (.free loc)) :
    s.top.get? (s.address path) = none := by
  rw [← Store.location_of_locate h]
  obtain ⟨above, name, entries, rfl, habove, hname⟩ := follow_free (Store.locate_eq_ok h).2 rfl
  rw [Place.location, Entry.get?_append, habove]
  simp [Entry.get?, hname]

/-- An entry with nothing below it can be put in the place of such an entry. -/
theorem evolves_put (h : s.locate path = .ok place) (hnew : new.Sound)
    (hbare : ∀ name rest, new.get? (name :: rest) = none)
    (hold : ∀ entries, s.top.get? (s.address path) ≠ some (.directory entries))
    (hfile : within (s.address path) ∨ new = .empty ∧ s.top.get? (s.address path) = none) :
    Evolves within s (s.put (s.address path) new) := by
  have hself := get?_put h new
  have hbelow : ∀ name rest, s.top.get? (s.address path ++ name :: rest) = none := by
    intro name rest
    rw [Entry.get?_append]
    cases hget : s.top.get? (s.address path) with
    | none => rfl
    | some e =>
      cases e with
      | file => rfl
      | directory entries => exact absurd hget (hold entries)
  refine ⟨rfl, fun hs => ⟨hs.top.set hnew (hs.address path), hs.here⟩, ?_, ?_⟩
  · intro loc entries hloc
    refine Entry.get?_set_directory (fun hprefix => ?_) hloc
    obtain ⟨rest, rfl⟩ := hprefix
    cases rest with
    | nil =>
      rw [List.append_nil] at hloc
      exact hold entries hloc
    | cons name rest => exact nomatch (hbelow name rest).symm.trans hloc
  · intro loc bytes stamp hloc
    by_cases hprefix : s.address path <+: loc
    · obtain ⟨rest, rfl⟩ := hprefix
      cases rest with
      | nil =>
        rw [List.append_nil] at hloc ⊢
        obtain ⟨rfl, hnone⟩ := hfile.resolve_left hloc
        rw [hself, hnone]
        simp [Entry.empty]
      | cons name rest =>
        rw [hbelow, Entry.get?_append, hself, Option.bind_some, hbare]
    · exact Entry.get?_set_file hprefix

/-! Files. -/

theorem Store.writeAt_eq_ok (h : s.writeAt path bytes stamp = .ok s') :
    ∃ place, s.locate path = .ok place ∧ Path.endsInSlash path = false ∧
      (∀ entries, s.top.get? (s.address path) ≠ some (.directory entries)) ∧
      s' = s.put (s.address path) (.file bytes stamp) := by
  obtain ⟨place, hplace, hrest⟩ := bind_eq_ok h
  have hlocation := Store.location_of_locate hplace
  cases place with
  | taken loc e =>
    obtain rfl : loc = s.address path := hlocation
    have hget := Store.get?_of_locate hplace
    cases e with
    | directory entries => exact nomatch hrest
    | file old oldStamp =>
      dsimp only at hrest
      split at hrest
      · exact nomatch hrest
      · next hslash =>
        refine ⟨_, hplace, Bool.eq_false_iff.2 hslash, fun entries => ?_,
          (Except.ok.inj hrest).symm⟩
        rw [hget]
        exact fun h => nomatch h
  | free loc =>
    obtain rfl : loc = s.address path := hlocation
    dsimp only at hrest
    split at hrest
    · exact nomatch hrest
    · next hslash =>
      refine ⟨_, hplace, Bool.eq_false_iff.2 hslash, fun entries => ?_, (Except.ok.inj hrest).symm⟩
      rw [get?_of_free hplace]
      exact fun h => nomatch h

theorem Store.write_eq_ok (h : s.write path bytes = .ok s') :
    ∃ place, s.locate path = .ok place ∧ Path.endsInSlash path = false ∧
      (∀ entries, s.top.get? (s.address path) ≠ some (.directory entries)) ∧
      s' = s.put (s.address path) (.file bytes (.tick s.clock)) :=
  writeAt_eq_ok h

theorem evolves_writeAt (h : s.writeAt path bytes stamp = .ok s') :
    Evolves (· = s.address path) s s' := by
  obtain ⟨place, hplace, -, hold, rfl⟩ := Store.writeAt_eq_ok h
  exact evolves_put hplace .file (fun _ _ => rfl) hold (.inl rfl)

theorem evolves_write (h : s.write path bytes = .ok s') :
    Evolves (· = s.address path) s s' :=
  evolves_writeAt h

theorem Store.find?_of_taken {e : Entry} (h : s.locate path = .ok (.taken loc e))
    (hslash : Path.endsInSlash path = false) : s.find? path = .ok e := by
  rw [find?, h, ok_bind]
  dsimp only
  rw [hslash]
  rfl

/-- What was written is found. -/
theorem Store.find?_of_write (h : s.write path bytes = .ok s') :
    s'.find? path = .ok (.file bytes (.tick s.clock)) := by
  have hevolves := evolves_write h
  obtain ⟨place, hplace, hslash, -, rfl⟩ := Store.write_eq_ok h
  have hlocate := Store.locate_kept hevolves.directories hevolves.here hplace (get?_put hplace _)
  exact find?_of_taken hlocate hslash

theorem Store.find?_eq_file (h : s.find? path = .ok (.file bytes stamp)) :
    Path.endsInSlash path = false ∧
      s.locate path = .ok (.taken (s.address path) (.file bytes stamp)) := by
  obtain ⟨place, hplace, hrest⟩ := bind_eq_ok h
  have hlocation := Store.location_of_locate hplace
  cases place with
  | free loc => exact nomatch hrest
  | taken loc e =>
    obtain rfl : loc = s.address path := hlocation
    dsimp only at hrest
    split at hrest
    · exact nomatch hrest
    · next hslash =>
      obtain rfl := Except.ok.inj hrest
      exact ⟨by simpa [Entry.isDirectory] using hslash, hplace⟩

/-- A file that nothing is written to stays what it was. -/
theorem Evolves.find? (h : Evolves within s s') (hpath : ¬ within (s.address path))
    (hfind : s.find? path = .ok (.file bytes stamp)) :
    s'.find? path = .ok (.file bytes stamp) := by
  obtain ⟨hslash, hlocate⟩ := Store.find?_eq_file hfind
  have hget := (h.files _ _ _ hpath).2 (Store.get?_of_locate hlocate)
  exact Store.find?_of_taken (Store.locate_kept h.directories h.here hlocate hget) hslash

theorem Store.readText_eq_ok (h : s.readText path = .ok text) :
    ∃ bytes stamp, s.find? path = .ok (.file bytes stamp) ∧ String.fromUTF8? bytes = some text := by
  obtain ⟨bytes, hread, htext⟩ := bind_eq_ok h
  obtain ⟨e, hfind, hbytes⟩ := bind_eq_ok hread
  cases e with
  | directory entries => exact nomatch hbytes
  | file bytes' stamp =>
    obtain rfl := Except.ok.inj hbytes
    refine ⟨bytes', stamp, hfind, ?_⟩
    split at htext
    · next t ht => exact ht.trans (congrArg some (Except.ok.inj htext))
    · exact nomatch htext

theorem Store.readText_of_find? (h : s.find? path = .ok (.file bytes stamp))
    (htext : String.fromUTF8? bytes = some text) : s.readText path = .ok text := by
  have hread : s.read path = .ok bytes := by
    rw [read, h]
    rfl
  rw [readText, hread, ok_bind, htext]
  rfl

theorem Evolves.readText (h : Evolves within s s') (hpath : ¬ within (s.address path))
    (htext : s.readText path = .ok text) : s'.readText path = .ok text := by
  obtain ⟨bytes, stamp, hfind, hbytes⟩ := Store.readText_eq_ok htext
  exact Store.readText_of_find? (h.find? hpath hfind) hbytes

theorem fromUTF8?_toUTF8 (text : String) : String.fromUTF8? text.toUTF8 = some text := by
  simp [String.fromUTF8?, text.isValidUTF8]
  rfl

theorem Store.readText_of_write (h : s.write path text.toUTF8 = .ok s') :
    s'.readText path = .ok text :=
  readText_of_find? (find?_of_write h) (fromUTF8?_toUTF8 text)

theorem evolves_copyFile {source target : String} (h : s.copyFile source target = .ok s') :
    Evolves (· = s.address target) s s' := by
  obtain ⟨_, -, h⟩ := bind_eq_ok h
  obtain ⟨emptied, hemptied, h⟩ := bind_eq_ok h
  obtain ⟨bytes, -, h⟩ := bind_eq_ok h
  have hfirst := evolves_write hemptied
  refine hfirst.trans ((evolves_write h).mono fun loc hloc => ?_)
  rw [hloc, hfirst.address_eq]

/-! Directories. -/

theorem Store.makeDirectory_eq_ok (h : s.makeDirectory path = .ok s') :
    s.locate path = .ok (.free (s.address path)) ∧ s' = s.put (s.address path) .empty := by
  obtain ⟨place, hplace, hrest⟩ := bind_eq_ok h
  have hlocation := Store.location_of_locate hplace
  cases place with
  | taken loc e => exact nomatch hrest
  | free loc =>
    obtain rfl : loc = s.address path := hlocation
    exact ⟨hplace, (Except.ok.inj hrest).symm⟩

theorem evolves_makeDirectory (h : s.makeDirectory path = .ok s') :
    Evolves (fun _ => False) s s' := by
  obtain ⟨hplace, rfl⟩ := Store.makeDirectory_eq_ok h
  have hnone := get?_of_free hplace
  refine evolves_put hplace Entry.sound_empty (fun _ _ => rfl) (fun entries => ?_)
    (.inr ⟨rfl, hnone⟩)
  rw [hnone]
  exact fun h => nomatch h

/-- The entries of a directory that is found have names. -/
theorem Store.Sound.of_find? {entries : Table Entry} (hs : s.Sound)
    (h : s.find? path = .ok (.directory entries)) : (Entry.directory entries).Sound := by
  obtain ⟨loc, hloc⟩ := Store.get?_of_find? h
  exact hs.top.get? hloc

theorem Store.isDirectory_of_makeDirectory (h : s.makeDirectory path = .ok s') :
    s'.isDirectory path := by
  have hevolves := evolves_makeDirectory h
  obtain ⟨hplace, rfl⟩ := Store.makeDirectory_eq_ok h
  have hlocate := Store.locate_kept hevolves.directories hevolves.here hplace (get?_put hplace _)
  have hfind : (s.put (s.address path) .empty).find? path = .ok .empty := by
    rw [find?, hlocate, ok_bind]
    dsimp only
    rw [show Entry.empty.isDirectory = true from rfl, Bool.not_true, Bool.and_false]
    rfl
  rw [isDirectory, hfind]
  rfl

end Stencil.Files
