import Stencil.Proofs.Files.Frame

/-! Names in a directory that is there. A path to the directory with a name behind it leads to the
entry of that name, and for making a directory by such a path no other has to be made first. -/

namespace Stencil.Files

variable {within : Location → Prop} {s s' : Store} {e found : Entry} {trail : Trail}
  {parts more empties : List String} {loc : Location} {path base name : String} {entries : Table Entry}
  {place : Place}

/-- Parts that lead to an entry can be followed first. -/
theorem follow_append (h : follow trail e parts = .ok (.taken loc found)) :
    ∃ trail' : Trail, trail'.location = loc ∧
      ∀ more, follow trail e (parts ++ more) = follow trail' found more := by
  fun_induction follow trail e parts with
  | case1 trail e =>
    cases h
    exact ⟨trail, rfl, fun _ => rfl⟩
  | case2 => cases h
  | case3 trail entries part rest hidle ih =>
    obtain ⟨trail', hloc, hmore⟩ := ih h
    exact ⟨trail', hloc, fun more => (follow_idle hidle).trans (hmore more)⟩
  | case4 entries rest hbusy ih =>
    obtain ⟨trail', hloc, hmore⟩ := ih h
    refine ⟨trail', hloc, fun more => ?_⟩
    rw [List.cons_append, follow, if_neg hbusy, if_pos rfl]
    exact hmore more
  | case5 entries rest above name trail hbusy ih =>
    obtain ⟨trail', hloc, hmore⟩ := ih h
    refine ⟨trail', hloc, fun more => ?_⟩
    rw [List.cons_append, follow, if_neg hbusy, if_pos rfl]
    exact hmore more
  | case6 => cases h
  | case7 trail entries part rest hbusy hdown hsize e hget ih =>
    obtain ⟨trail', hloc, hmore⟩ := ih h
    exact ⟨trail', hloc, fun more => (follow_named hbusy hdown hsize hget).trans (hmore more)⟩
  | case8 => cases h
  | case9 => cases h

theorem follow_empties (hempties : ∀ part ∈ empties, part = "") :
    follow trail (.directory entries) (empties ++ parts) =
      follow trail (.directory entries) parts := by
  induction empties with
  | nil => rfl
  | cons part empties ih =>
    obtain ⟨rfl, hrest⟩ := List.forall_mem_cons.1 hempties
    rw [List.cons_append, follow_idle rfl, ih hrest]

/-! The parts of joined paths. -/

theorem dropSlashEnd_append_empties (parts : List String) :
    ∃ empties, (∀ part ∈ empties, part = "") ∧ parts = Path.dropSlashEnd parts ++ empties := by
  refine ⟨(parts.reverse.takeWhile (·.isEmpty)).reverse, fun part hpart => ?_, ?_⟩
  · have hempty := List.all_eq_true.1 List.all_takeWhile part (List.mem_reverse.1 hpart)
    simpa using hempty
  · rw [Path.dropSlashEnd, ← List.reverse_append, List.takeWhile_append_dropWhile,
      List.reverse_reverse]

theorem dropSlashEnd_concat_empty (parts : List String) :
    Path.dropSlashEnd (parts ++ [""]) = Path.dropSlashEnd parts := by
  rw [Path.dropSlashEnd, List.reverse_append]
  rfl

theorem dropSlashEnd_concat (hname : name ≠ "") (parts : List String) :
    Path.dropSlashEnd (parts ++ [name]) = parts ++ [name] := by
  have hempty : ¬ name.isEmpty := by simpa using hname
  rw [Path.dropSlashEnd, List.reverse_append, List.reverse_singleton, List.singleton_append,
    List.dropWhile_cons, if_neg hempty, List.reverse_cons, List.reverse_reverse]

theorem IsName.ne_empty (h : IsName name) : name ≠ "" := by
  rintro rfl
  exact nomatch h.busy

/-- The slash between two joined paths may be there already. -/
theorem parts_join (hbase : base ≠ "") :
    ∃ front, Path.dropSlashEnd front = Path.dropSlashEnd (Path.parts base) ∧
      ∀ name, '/' ∉ name.toList → Path.parts (Path.join base name) = front ++ [name] ∧
        Path.isAbsolute (Path.join base name) = Path.isAbsolute base := by
  have hempty : base.isEmpty = false := by simpa using hbase
  cases hslash : Path.endsInSlash base with
  | true =>
    obtain ⟨front, hfront⟩ := List.getLast?_eq_some_iff.1 (beq_iff_eq.1 hslash)
    obtain rfl : base = String.ofList front ++ "/" := by
      rw [← String.toList_inj, hfront]
      simp
    refine ⟨Path.parts (String.ofList front), ?_, fun name hname => ?_⟩
    · have hslash := parts_slash (String.ofList front) ""
      rw [String.append_empty] at hslash
      rw [hslash, show Path.parts "" = [""] from rfl, dropSlashEnd_concat_empty]
    · rw [Path.join, isAbsolute_of_whole hname, hempty, hslash]
      simp only [Bool.or_self, Bool.false_eq_true, if_false, if_true]
      exact ⟨by rw [parts_slash, parts_of_whole hname], isAbsolute_append hbase name⟩
  | false =>
    refine ⟨Path.parts base, rfl, fun name hname => ?_⟩
    rw [Path.join, isAbsolute_of_whole hname, hempty, hslash]
    simp only [Bool.or_self, Bool.false_eq_true, if_false]
    refine ⟨by rw [parts_slash, parts_of_whole hname], ?_⟩
    rw [String.append_assoc, isAbsolute_append hbase]

theorem Store.route_join (s : Store) (hbase : base ≠ "") (hname : IsName name) :
    ∃ empties, (∀ part ∈ empties, part = "") ∧
      s.route (Path.join base name) = s.route base ++ empties ++ [name] := by
  obtain ⟨front, hfront, hparts⟩ := parts_join hbase
  obtain ⟨hjoin, habsolute⟩ := hparts name hname.whole
  obtain ⟨empties, hempties, happend⟩ := dropSlashEnd_append_empties front
  refine ⟨empties, hempties, ?_⟩
  rw [Store.route, Store.route, habsolute, hjoin, dropSlashEnd_concat hname.ne_empty, ← hfront]
  split
  · rw [← happend]
  · rw [List.append_assoc s.here, ← happend, List.append_assoc]

theorem Store.route_join_empty (s : Store) (hbase : base ≠ "") :
    s.route (Path.join base "") = s.route base := by
  obtain ⟨front, hfront, hparts⟩ := parts_join hbase
  obtain ⟨hjoin, habsolute⟩ := hparts "" (by simp)
  rw [Store.route, Store.route, habsolute, hjoin, dropSlashEnd_concat_empty, hfront]

/-! Directories that are found. -/

theorem Store.find?_eq_ok (h : s.find? path = .ok e) :
    s.locate path = .ok (.taken (s.address path) e) ∧
      (Path.endsInSlash path && !e.isDirectory) = false := by
  obtain ⟨place, hplace, hrest⟩ := bind_eq_ok h
  have hlocation := Store.location_of_locate hplace
  cases place with
  | free => exact nomatch hrest
  | taken found e' =>
    obtain rfl : found = s.address path := hlocation
    dsimp only at hrest
    split at hrest
    · exact nomatch hrest
    · next hslash =>
      obtain rfl := Except.ok.inj hrest
      exact ⟨hplace, Bool.eq_false_iff.2 hslash⟩

theorem Store.get?_address (h : s.find? path = .ok e) : s.top.get? (s.address path) = some e :=
  Store.get?_of_locate (Store.find?_eq_ok h).1

theorem Store.find?_of_directory (h : s.locate path = .ok (.taken loc (.directory entries))) :
    s.find? path = .ok (.directory entries) := by
  rw [find?, h, ok_bind]
  dsimp only
  rw [show (Entry.directory entries).isDirectory = true from rfl, Bool.not_true, Bool.and_false,
    if_neg Bool.false_ne_true]
  rfl

theorem Store.isDirectory_of_find? (h : s.find? path = .ok (.directory entries)) :
    s.isDirectory path := by
  rw [isDirectory, h]

theorem Store.find?_of_isFile (h : s.isFile path) :
    ∃ bytes stamp, s.find? path = .ok (.file bytes stamp) := by
  unfold Store.isFile at h
  split at h
  · next bytes stamp hfind => exact ⟨bytes, stamp, hfind⟩
  · exact nomatch h

/-- A directory stays one, whatever is written. -/
theorem Evolves.find?_directory (h : Evolves within s s')
    (hfind : s.find? path = .ok (.directory entries)) :
    ∃ entries', s'.find? path = .ok (.directory entries') ∧
      s'.top.get? (s.address path) = some (.directory entries') := by
  obtain ⟨entries', hget⟩ := h.directories _ _ (Store.get?_address hfind)
  have hlocate := Store.locate_kept h.directories h.here (Store.find?_eq_ok hfind).1 hget
  exact ⟨entries', Store.find?_of_directory hlocate, hget⟩

theorem Evolves.isDirectory (h : Evolves within s s') (hdirectory : s.isDirectory path) :
    s'.isDirectory path := by
  obtain ⟨entries, hfind⟩ := Store.find?_of_isDirectory hdirectory
  obtain ⟨entries', hfind', -⟩ := h.find?_directory hfind
  exact Store.isDirectory_of_find? hfind'

/-- The directory that holds, or is to hold, what a path leads to is there. -/
def Store.HasPlace (s : Store) (path : String) : Prop :=
  ∃ front last trail entries, s.route path = front ++ [last] ∧
    ∀ more, follow [] s.top (front ++ more) = follow trail (.directory entries) more

theorem Store.hasPlace_join (hbase : s.isDirectory base) (hname : IsName name) :
    s.HasPlace (Path.join base name) := by
  obtain ⟨entries, hfind⟩ := Store.find?_of_isDirectory hbase
  obtain ⟨hne, hfollow⟩ := Store.locate_eq_ok (Store.find?_eq_ok hfind).1
  obtain ⟨empties, hempties, hroute⟩ := s.route_join hne hname
  obtain ⟨trail, -, hmore⟩ := follow_append hfollow
  refine ⟨_, name, trail, entries, hroute, fun more => ?_⟩
  rw [List.append_assoc, hmore, follow_empties hempties]

theorem Store.HasPlace.join_empty (h : s.HasPlace path) (hpath : path ≠ "") :
    s.HasPlace (Path.join path "") := by
  obtain ⟨front, last, trail, entries, hroute, hmore⟩ := h
  exact ⟨front, last, trail, entries, (s.route_join_empty hpath).trans hroute, hmore⟩

theorem follow_tooLong {part : String} {rest : List String} (hbusy : ¬ Path.isIdle part)
    (hdown : part ≠ "..") (hsize : maxNameBytes < part.utf8ByteSize) :
    follow trail (.directory entries) (part :: rest) = .error .nameTooLong := by
  cases trail <;> rw [follow, if_neg hbusy, if_neg hdown, if_pos hsize]

theorem follow_unused {part : String} (hbusy : ¬ Path.isIdle part) (hdown : part ≠ "..")
    (hsize : ¬ maxNameBytes < part.utf8ByteSize) (hget : Table.get? entries part = none) :
    follow trail (.directory entries) [part] = .ok (.free (trail.location ++ [part])) := by
  cases trail <;> (rw [follow, if_neg hbusy, if_neg hdown, if_neg hsize, hget]; rfl)

/-- Nothing is missing before the last part. -/
theorem follow_last_ne (trail : Trail) (entries : Table Entry) (last : String) :
    follow trail (.directory entries) [last] ≠ .error .notFound := by
  by_cases hidle : Path.isIdle last
  · rw [follow_idle hidle, follow]
    simp
  · by_cases hdown : last = ".."
    · subst hdown
      rcases trail with _ | ⟨⟨above, name⟩, trail⟩
      · rw [follow, if_neg hidle, if_pos rfl, follow]
        simp
      · rw [follow, if_neg hidle, if_pos rfl, follow]
        simp
    · by_cases hsize : maxNameBytes < last.utf8ByteSize
      · rw [follow_tooLong hidle hdown hsize]
        simp
      · cases hget : Table.get? entries last with
        | some e =>
          rw [follow_named hidle hdown hsize hget, follow]
          simp
        | none =>
          rw [follow_unused hidle hdown hsize hget]
          simp

theorem Store.HasPlace.makeDirectory_ne (h : s.HasPlace path) (hpath : path ≠ "") :
    s.makeDirectory path ≠ .error .notFound := by
  obtain ⟨front, last, trail, entries, hroute, hmore⟩ := h
  have hempty : ¬ path.isEmpty := by simpa using hpath
  have hlocate : s.locate path ≠ .error .notFound := by
    have hfollow := follow_last_ne trail entries last
    rw [← hmore, ← hroute] at hfollow
    unfold Store.locate
    rw [if_neg hempty]
    split
    · exact fun h => nomatch h
    · split
      · exact fun h => nomatch h
      · exact hfollow
  intro hmake
  rcases bind_eq_error hmake with hmissing | ⟨place, -, hrest⟩
  · exact hlocate hmissing
  · cases place with
    | taken => exact nomatch hrest
    | free => exact nomatch hrest

/-- Where the directory above is there, only this one is made. -/
theorem Store.HasPlace.get?_makeDirectories (h : s.HasPlace path) (hpath : path ≠ "")
    (hloc : ¬ loc <+: s.address path) :
    ((makeDirectories path).run s).2.top.get? loc = s.top.get? loc := by
  rw [makeDirectories, run_makeWithParents_succ]
  split
  · rfl
  · split
    · next hmake => exact get?_makeDirectory hmake hloc
    · next hmissing => exact absurd hmissing (h.makeDirectory_ne hpath)
    · split <;> rfl

theorem Store.fits_of_locate (h : s.locate path = .ok place) :
    '\x00' ∉ path.toList ∧ ¬ maxPathBytes < path.utf8ByteSize := by
  unfold Store.locate at h
  split at h
  · exact nomatch h
  · next hnul =>
    split at h
    · exact nomatch h
    · split at h
      · exact nomatch h
      · next hsize => exact ⟨hnul, hsize⟩

theorem exists_join_eq (hbase : base ≠ "") : ∃ slash, ∀ name : String, '/' ∉ name.toList →
    Path.join base name = base ++ slash ++ name := by
  have hempty : base.isEmpty = false := by simpa using hbase
  cases hslash : Path.endsInSlash base with
  | true =>
    refine ⟨"", fun name hname => ?_⟩
    rw [Path.join, isAbsolute_of_whole hname, hempty, hslash, String.append_empty]
    rfl
  | false =>
    refine ⟨"/", fun name hname => ?_⟩
    rw [Path.join, isAbsolute_of_whole hname, hempty, hslash]
    rfl

/-- A path fits if one to a longer name in the same directory does. -/
theorem fits_join {name longer : String} (hbase : base ≠ "") (hname : '/' ∉ name.toList)
    (hlonger : '/' ∉ longer.toList) (hnul : '\x00' ∉ name.toList)
    (hsize : name.utf8ByteSize ≤ longer.utf8ByteSize)
    (h : s.locate (Path.join base longer) = .ok place) :
    '\x00' ∉ (Path.join base name).toList ∧
      ¬ maxPathBytes < (Path.join base name).utf8ByteSize := by
  obtain ⟨slash, hjoin⟩ := exists_join_eq hbase
  obtain ⟨hnul', hsize'⟩ := Store.fits_of_locate h
  rw [hjoin longer hlonger, String.toList_append, List.mem_append, not_or] at hnul'
  rw [hjoin longer hlonger, String.utf8ByteSize_append] at hsize'
  rw [hjoin name hname, String.toList_append, String.utf8ByteSize_append, List.mem_append]
  exact ⟨not_or.2 ⟨hnul'.1, hnul⟩, by omega⟩

/-- What stands in a directory under a name is found there, if the path is short enough. -/
theorem Store.locate_join (hbase : s.find? base = .ok (.directory entries)) (hname : IsName name)
    (hnul : '\x00' ∉ (Path.join base name).toList)
    (hpath : ¬ maxPathBytes < (Path.join base name).utf8ByteSize)
    (hsize : ¬ maxNameBytes < name.utf8ByteSize) (hget : Table.get? entries name = some e) :
    s.locate (Path.join base name) = .ok (.taken (s.address base ++ [name]) e) := by
  obtain ⟨hne, hfollow⟩ := Store.locate_eq_ok (Store.find?_eq_ok hbase).1
  obtain ⟨empties, hempties, hroute⟩ := s.route_join hne hname
  obtain ⟨trail, hlocation, hmore⟩ := follow_append hfollow
  have hempty : ¬ (Path.join base name).isEmpty := by simpa using Path.join_ne_empty hne name
  have hbusy : ¬ Path.isIdle name := ne_true_of_eq_false hname.busy
  have hwhole : follow [] s.top (s.route (Path.join base name)) =
      .ok (.taken (s.address base ++ [name]) e) := by
    rw [hroute, List.append_assoc, hmore, follow_empties hempties,
      follow_named hbusy hname.down hsize hget, follow, location_cons, hlocation]
  unfold Store.locate
  rw [if_neg hnul, if_neg hempty, if_neg hpath]
  exact hwhole

/-! What a path that goes on leads through. -/

theorem follow_missing {part : String} {rest : List String} {entries : Table Entry}
    (hbusy : ¬ Path.isIdle part) (hdown : part ≠ "..") (hsize : ¬ maxNameBytes < part.utf8ByteSize)
    (hget : Table.get? entries part = none) (hrest : rest ≠ []) :
    follow trail (.directory entries) (part :: rest) = .error .notFound := by
  have hempty : ¬ rest.isEmpty := by simpa using hrest
  cases trail <;> rw [follow, if_neg hbusy, if_neg hdown, if_neg hsize, hget] <;> exact if_neg hempty

/-- Parts that go on from somewhere lead there first. -/
theorem follow_front (hmore : more ≠ []) (h : follow trail e (parts ++ more) = .ok place) :
    ∃ (trail' : Trail) (found : Entry), follow trail e parts = .ok (.taken trail'.location found) ∧
      follow trail' found more = .ok place := by
  fun_induction follow trail e parts with
  | case1 trail e => exact ⟨trail, e, rfl, h⟩
  | case2 => cases h
  | case3 trail entries part rest hidle ih =>
    rw [List.cons_append, follow_idle hidle] at h
    exact ih h
  | case4 entries rest hbusy ih =>
    rw [List.cons_append, follow, if_neg hbusy, if_pos rfl] at h
    exact ih h
  | case5 entries rest above name trail hbusy ih =>
    rw [List.cons_append, follow, if_neg hbusy, if_pos rfl] at h
    exact ih h
  | case6 trail entries part rest hbusy hdown hsize =>
    rw [List.cons_append, follow_tooLong hbusy hdown hsize] at h
    cases h
  | case7 trail entries part rest hbusy hdown hsize e hget ih =>
    rw [List.cons_append, follow_named hbusy hdown hsize hget] at h
    exact ih h
  | case8 trail entries part rest hbusy hdown hsize hget hrest =>
    rw [List.cons_append, follow_missing hbusy hdown hsize hget (by simp [hmore])] at h
    cases h
  | case9 trail entries part rest hbusy hdown hsize hget hrest =>
    rw [List.cons_append, follow_missing hbusy hdown hsize hget (by simp [hmore])] at h
    cases h

/-- What has an entry below it is a directory. -/
theorem Store.find?_of_join (hbase : base ≠ "") (hname : IsName name)
    (h : s.locate (Path.join base name) = .ok place) :
    ∃ entries, s.find? base = .ok (.directory entries) := by
  obtain ⟨empties, -, hroute⟩ := s.route_join hbase hname
  have hfollow := (Store.locate_eq_ok h).2
  rw [hroute, List.append_assoc] at hfollow
  obtain ⟨trail, found, hfound, hrest⟩ := follow_front (by simp) hfollow
  obtain ⟨entries, rfl⟩ : ∃ entries, found = .directory entries := by
    cases found with
    | directory entries => exact ⟨entries, rfl⟩
    | file => cases empties <;> exact nomatch hrest
  -- the path is no longer than the one to the entry
  obtain ⟨slash, hjoin⟩ := exists_join_eq hbase
  obtain ⟨hnul, hsize⟩ := Store.fits_of_locate h
  rw [hjoin name hname.whole, String.append_assoc] at hnul hsize
  rw [String.toList_append, List.mem_append, not_or] at hnul
  rw [String.utf8ByteSize_append] at hsize
  have hempty : ¬ base.isEmpty := by simpa using hbase
  have hfits : ¬ maxPathBytes < base.utf8ByteSize := by omega
  have hlocate : s.locate base = .ok (.taken trail.location (.directory entries)) := by
    unfold Store.locate
    rw [if_neg hnul.1, if_neg hempty, if_neg hfits]
    exact hfound
  exact ⟨entries, Store.find?_of_directory hlocate⟩

end Stencil.Files
