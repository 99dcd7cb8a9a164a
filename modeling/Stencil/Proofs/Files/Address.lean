import Stencil.Proofs.Files.Tree

/-! Addresses: the location that a path spells, whatever the store holds. A path that leads anywhere
leads to its address, and where directories only come and never go it keeps leading there. -/

namespace Stencil

namespace Files

/-- One part of a path, from a location on. -/
def move (loc : Location) (part : String) : Location :=
  if Path.isIdle part then loc else if part = ".." then loc.dropLast else loc ++ [part]

def Place.location : Place → Location
  | .taken loc _ => loc
  | .free loc => loc

namespace Store

/-- The parts of a path from the top on. -/
def route (s : Store) (path : String) : List String :=
  if Path.isAbsolute path then Path.dropSlashEnd (Path.parts path)
  else s.here ++ Path.dropSlashEnd (Path.parts path)

/-- The location that a path spells. -/
def address (s : Store) (path : String) : Location := (s.route path).foldl move []

/-- The directories are sound, and where relative paths start is a location. -/
structure Sound (s : Store) : Prop where
  top : s.top.Sound
  here : ∀ name ∈ s.here, IsName name

end Store

variable {s s' : Store} {top top' e e' found : Entry} {trail trail' : Trail} {parts : List String}
  {loc : Location} {place : Place} {path base name part : String} {entries : Table Entry}

/-! Following a path. -/

theorem location_cons (step : List (String × Entry) × String) (trail : Trail) :
    Trail.location (step :: trail) = trail.location ++ [step.2] := by
  rw [Trail.location, List.map_cons, List.reverse_cons]
  rfl

theorem follow_idle {rest : List String} (hidle : Path.isIdle part) :
    follow trail (.directory entries) (part :: rest) = follow trail (.directory entries) rest := by
  cases trail <;> rw [follow, if_pos hidle]

theorem follow_named {rest : List String} (hbusy : ¬ Path.isIdle part) (hdown : part ≠ "..")
    (hsize : ¬ maxNameBytes < part.utf8ByteSize) (hget : Table.get? entries part = some e) :
    follow trail (.directory entries) (part :: rest) =
      follow ((entries, part) :: trail) e rest := by
  cases trail <;> rw [follow, if_neg hbusy, if_neg hdown, if_neg hsize, hget]

theorem follow_location (h : follow trail e parts = .ok place) :
    place.location = parts.foldl move trail.location := by
  fun_induction follow trail e parts with
  | case1 => cases h; rfl
  | case2 => cases h
  | case3 trail entries part rest hidle ih =>
    rw [ih h, List.foldl_cons, move, if_pos hidle]
  | case4 entries rest hbusy ih =>
    rw [ih h, List.foldl_cons, move, if_neg hbusy, if_pos rfl]
    rfl
  | case5 entries rest above name trail hbusy ih =>
    rw [ih h, List.foldl_cons, move, if_neg hbusy, if_pos rfl, location_cons, List.dropLast_concat]
  | case6 => cases h
  | case7 trail entries part rest hbusy hdown _ e hget ih =>
    rw [ih h, List.foldl_cons, move, if_neg hbusy, if_neg hdown, location_cons]
  | case8 trail entries part rest hbusy hdown _ hget hrest =>
    obtain rfl := List.isEmpty_iff.1 hrest
    cases h
    rw [List.foldl_cons, move, if_neg hbusy, if_neg hdown]
    rfl
  | case9 => cases h

/-- A free name lies in a directory. -/
theorem follow_free (h : follow trail e parts = .ok (.free loc)) (ht : trail.LeadsTo top e) :
    ∃ above name entries, loc = above ++ [name] ∧ top.get? above = some (.directory entries) ∧
      Table.get? entries name = none := by
  fun_induction follow trail e parts with
  | case1 => cases h
  | case2 => cases h
  | case3 _ _ _ _ _ ih => exact ih h ht
  | case4 _ _ _ ih => exact ih h ht
  | case5 _ _ _ _ _ _ ih => exact ih h ht.2
  | case6 => cases h
  | case7 _ _ _ _ _ _ _ _ hget ih => exact ih h ⟨hget, ht⟩
  | case8 trail entries part _ _ _ _ hget _ =>
    cases h
    exact ⟨trail.location, part, entries, rfl, ht.get?_location, hget⟩
  | case9 => cases h

/-- Nothing follows a file. -/
theorem follow_file {bytes : ByteArray} {stamp : Stamp}
    (h : follow trail (.file bytes stamp) parts = .ok place) :
    place = .taken trail.location (.file bytes stamp) := by
  cases parts with
  | nil => exact (Except.ok.inj h).symm
  | cons part rest => exact nomatch h

theorem get?_of_leadsTo (ht : trail.LeadsTo top (.directory entries)) :
    top.get? (trail.location ++ [name]) = Table.get? entries name := by
  rw [Entry.get?_append, ht.get?_location]
  simp [Entry.get?]

/-- Where all directories are still there, parts lead where they led, to what is there now. -/
theorem follow_kept (hkept : ∀ loc entries, top.get? loc = some (.directory entries) →
      ∃ entries', top'.get? loc = some (.directory entries'))
    (h : follow trail e parts = .ok place) (ht : trail.LeadsTo top e) (ht' : trail'.LeadsTo top' e')
    (hsame : trail'.location = trail.location) (hfound : top'.get? place.location = some found) :
    follow trail' e' parts = .ok (.taken place.location found) := by
  -- what is a directory in the old store is one in the new store
  have directory {trail trail' : Trail} {entries : Table Entry} {e' : Entry}
      (ht : trail.LeadsTo top (.directory entries)) (ht' : trail'.LeadsTo top' e')
      (hsame : trail'.location = trail.location) : ∃ entries', e' = .directory entries' := by
    obtain ⟨entries', hentries⟩ := hkept _ _ ht.get?_location
    rw [← hsame, ht'.get?_location] at hentries
    exact ⟨entries', Option.some.inj hentries⟩
  fun_induction follow trail e parts generalizing trail' e' with
  | case1 trail e =>
    cases h
    rw [Place.location, ← hsame, ht'.get?_location] at hfound
    rw [follow, Place.location, hsame, Option.some.inj hfound]
  | case2 => cases h
  | case3 trail entries part rest hidle ih =>
    obtain ⟨entries', rfl⟩ := directory ht ht' hsame
    rw [follow_idle hidle]
    exact ih h ht ht' hsame
  | case4 entries rest hbusy ih =>
    obtain ⟨entries', rfl⟩ := directory ht ht' hsame
    obtain rfl : trail' = [] := by
      cases trail' with
      | nil => rfl
      | cons step trail' => simp [Trail.location] at hsame
    rw [follow, if_neg hbusy, if_pos rfl]
    exact ih h ht ht' hsame
  | case5 entries rest above name trail hbusy ih =>
    obtain ⟨entries', rfl⟩ := directory ht ht' hsame
    cases trail' with
    | nil => simp [Trail.location] at hsame
    | cons step trail' =>
      obtain ⟨above', name'⟩ := step
      rw [location_cons, location_cons] at hsame
      rw [follow, if_neg hbusy, if_pos rfl]
      exact ih h ht.2 ht'.2 (List.append_inj_left' hsame rfl)
  | case6 => cases h
  | case7 trail entries part rest hbusy hdown hsize e hget ih =>
    obtain ⟨entries', rfl⟩ := directory ht ht' hsame
    have hthere : ∃ next, top'.get? (trail.location ++ [part]) = some next := by
      cases e with
      | file bytes stamp =>
        rw [follow_file h, Place.location, location_cons] at hfound
        exact ⟨found, hfound⟩
      | directory es =>
        obtain ⟨es', hes⟩ := hkept (trail.location ++ [part]) es ((get?_of_leadsTo ht).trans hget)
        exact ⟨_, hes⟩
    obtain ⟨next, hnext⟩ := hthere
    rw [← hsame, get?_of_leadsTo ht'] at hnext
    rw [follow_named hbusy hdown hsize hnext]
    exact ih h ⟨hget, ht⟩ ⟨hnext, ht'⟩ (by rw [location_cons, location_cons, hsame])
  | case8 trail entries part rest hbusy hdown hsize hget hrest =>
    obtain ⟨entries', rfl⟩ := directory ht ht' hsame
    obtain rfl := List.isEmpty_iff.1 hrest
    cases h
    rw [Place.location, ← hsame, get?_of_leadsTo ht'] at hfound
    rw [follow_named hbusy hdown hsize hfound, follow, location_cons, hsame]
    rfl
  | case9 => cases h

/-! What a path spells. -/

theorem move_empty (loc : Location) : move loc "" = loc := rfl

theorem move_name (h : IsName name) (loc : Location) : move loc name = loc ++ [name] := by
  rw [move, if_neg (ne_true_of_eq_false h.busy), if_neg h.down]

theorem foldl_move_names {names : List String} (h : ∀ name ∈ names, IsName name) (loc : Location) :
    names.foldl move loc = loc ++ names := by
  induction names generalizing loc with
  | nil => exact (List.append_nil loc).symm
  | cons name names ih =>
    obtain ⟨hname, hnames⟩ := List.forall_mem_cons.1 h
    rw [List.foldl_cons, move_name hname, ih hnames, List.append_assoc, List.singleton_append]

theorem foldl_move_dropSlashEnd (loc : Location) (parts : List String) :
    (Path.dropSlashEnd parts).foldl move loc = parts.foldl move loc := by
  rw [Path.dropSlashEnd]
  generalize hreverse : parts.reverse = ends
  obtain rfl : parts = ends.reverse := by rw [← hreverse, List.reverse_reverse]
  clear hreverse
  induction ends with
  | nil => rfl
  | cons part ends ih =>
    rw [List.dropWhile_cons]
    split
    · next hempty =>
      have hidle : ∀ loc, move loc part = loc := fun loc => by
        rw [move, if_pos (by rw [Path.isIdle, hempty]; rfl)]
      rw [ih, List.reverse_cons, List.foldl_append, List.foldl_cons, List.foldl_nil, hidle]
    · rfl

theorem mem_foldl_move (h : name ∈ parts.foldl move loc) :
    name ∈ loc ∨ name ∈ parts ∧ Path.isIdle name = false ∧ name ≠ ".." := by
  induction parts generalizing loc with
  | nil => exact .inl h
  | cons part rest ih =>
    obtain h | ⟨hmem, hname⟩ := ih h
    · unfold move at h
      split at h
      · exact .inl h
      · next hbusy =>
        split at h
        · exact .inl (List.dropLast_subset _ h)
        · next hdown =>
          obtain h | h := List.mem_append.1 h
          · exact .inl h
          · obtain rfl := List.mem_singleton.1 h
            exact .inr ⟨List.mem_cons_self, Bool.eq_false_iff.2 hbusy, hdown⟩
    · exact .inr ⟨List.mem_cons_of_mem _ hmem, hname⟩

theorem whole_of_mem_parts (h : part ∈ Path.parts path) : '/' ∉ part.toList := by
  obtain ⟨cs, hcs, rfl⟩ := List.mem_map.1 h
  rw [String.toList_ofList]
  exact fun hmem => nomatch Text.not_of_mem_splitBy hcs '/' hmem

theorem mem_of_mem_dropSlashEnd (h : part ∈ Path.dropSlashEnd parts) : part ∈ parts :=
  List.mem_reverse.1 (List.dropWhile_subset _ (List.mem_reverse.1 h))

/-- An address consists of names. -/
theorem Store.Sound.address (h : s.Sound) (path : String) :
    ∀ name ∈ s.address path, IsName name := by
  intro name hname
  have hroute : ∀ part ∈ s.route path, part ∈ s.here ∨ part ∈ Path.parts path := by
    intro part hpart
    unfold Store.route at hpart
    split at hpart
    · exact .inr (mem_of_mem_dropSlashEnd hpart)
    · exact (List.mem_append.1 hpart).imp_right mem_of_mem_dropSlashEnd
  obtain h' | ⟨hpart, hbusy, hdown⟩ := mem_foldl_move hname
  · exact absurd h' List.not_mem_nil
  · obtain hhere | hpath := hroute name hpart
    · exact h.here name hhere
    · exact ⟨hbusy, hdown, whole_of_mem_parts hpath⟩

/-- A directory of files. -/
theorem Store.sound_flat {entries : Table Entry} {clock : Nat} (sorted : entries.Sorted)
    (names : ∀ name ∈ entries.keys, IsName name) (files : ∀ e ∈ entries, e.2.isDirectory = false) :
    (⟨.directory entries, [], clock⟩ : Store).Sound := by
  refine ⟨.directory sorted names fun name e he => ?_, fun _ h => absurd h List.not_mem_nil⟩
  have hfile := files _ (mem_of_lookup he)
  cases e with
  | file => exact .file
  | directory => exact nomatch hfile

theorem Store.address_eq (hhere : s'.here = s.here) (path : String) :
    s'.address path = s.address path := by
  rw [Store.address, Store.address, Store.route, Store.route, hhere]

theorem Store.address_eq_foldl (s : Store) (path : String) : s.address path =
    (Path.parts path).foldl move (if Path.isAbsolute path then [] else s.here.foldl move []) := by
  rw [Store.address, Store.route]
  split
  · exact foldl_move_dropSlashEnd [] _
  · rw [List.foldl_append, foldl_move_dropSlashEnd]

theorem parts_slash (path part : String) :
    Path.parts (path ++ "/" ++ part) = Path.parts path ++ Path.parts part := by
  have hchars : (path ++ "/" ++ part).toList = path.toList ++ '/' :: part.toList := by
    simp [String.toList_append]
  rw [Path.parts, hchars, Text.splitBy_append rfl, List.map_append]
  rfl

theorem parts_of_whole (h : '/' ∉ part.toList) : Path.parts part = [part] := by
  have hnot : ∀ c ∈ part.toList, (c == '/') = false := fun c hc =>
    beq_false_of_ne fun heq => h (heq ▸ hc)
  rw [Path.parts, Text.splitBy_of_not hnot, List.map_singleton, String.ofList_toList]

theorem isAbsolute_append (hbase : base ≠ "") (more : String) :
    Path.isAbsolute (base ++ more) = Path.isAbsolute base := by
  rw [Path.isAbsolute, Path.isAbsolute, String.toList_append]
  cases hchars : base.toList with
  | nil => exact absurd (String.toList_eq_nil_iff.1 hchars) hbase
  | cons c cs => rfl

theorem foldl_parts_slash (path more : String) (loc : Location) :
    (Path.parts (path ++ "/" ++ more)).foldl move loc =
      (Path.parts more).foldl move ((Path.parts path).foldl move loc) := by
  rw [parts_slash, List.foldl_append]

/-- A relative path behind another one goes on from where that leads. -/
theorem Store.address_join_parts (s : Store) (hbase : base ≠ "")
    (hrelative : Path.isAbsolute path = false) :
    s.address (Path.join base path) = (Path.parts path).foldl move (s.address base) := by
  have hempty : base.isEmpty = false := by simpa using hbase
  rw [Path.join, hrelative, hempty, Store.address_eq_foldl, Store.address_eq_foldl]
  simp only [Bool.or_self, Bool.false_eq_true, if_false]
  split
  · next hslash =>
    obtain ⟨front, hfront⟩ := List.getLast?_eq_some_iff.1 (beq_iff_eq.1 hslash)
    obtain rfl : base = String.ofList front ++ "/" := by
      rw [← String.toList_inj, hfront]
      simp
    -- the slash at the end leads nowhere
    have hself := foldl_parts_slash (String.ofList front) ""
      (if Path.isAbsolute (String.ofList front ++ "/") then [] else s.here.foldl move [])
    rw [String.append_empty, show Path.parts "" = [""] from rfl, List.foldl_cons, List.foldl_nil,
      move_empty] at hself
    rw [isAbsolute_append hbase, foldl_parts_slash, hself]
  · rw [foldl_parts_slash, String.append_assoc, isAbsolute_append hbase]

theorem isAbsolute_of_whole (hpart : '/' ∉ part.toList) : Path.isAbsolute part = false :=
  beq_false_of_ne fun h => hpart (List.mem_of_mem_head? h)

/-- A path without slashes behind another one is one part more. -/
theorem Store.address_join (s : Store) (hbase : base ≠ "") (hpart : '/' ∉ part.toList) :
    s.address (Path.join base part) = move (s.address base) part := by
  rw [s.address_join_parts hbase (isAbsolute_of_whole hpart), parts_of_whole hpart]
  rfl

theorem Path.join_ne_empty (hbase : base ≠ "") (part : String) : Path.join base part ≠ "" := by
  have hempty : base.isEmpty = false := by simpa using hbase
  rw [Path.join, hempty, Bool.or_false]
  split
  · next habsolute => exact fun h => by simp [h, Path.isAbsolute] at habsolute
  · split <;> simp [hbase]

theorem Store.address_join_name (s : Store) (hbase : base ≠ "") (h : IsName name) :
    s.address (Path.join base name) = s.address base ++ [name] := by
  rw [s.address_join hbase h.whole, move_name h]

/-! Where a path leads. -/

theorem Store.locate_eq_ok (h : s.locate path = .ok place) :
    path ≠ "" ∧ follow [] s.top (s.route path) = .ok place := by
  unfold Store.locate at h
  split at h
  · exact nomatch h
  · split at h
    · exact nomatch h
    · next hempty =>
      split at h
      · exact nomatch h
      · exact ⟨fun hpath => hempty (hpath ▸ rfl), h⟩

theorem Store.location_of_locate (h : s.locate path = .ok place) :
    place.location = s.address path :=
  follow_location (Store.locate_eq_ok h).2

/-- All directories of the first store are directories of the second. -/
def Store.KeepsDirectories (s s' : Store) : Prop :=
  ∀ loc entries, s.top.get? loc = some (.directory entries) →
    ∃ entries', s'.top.get? loc = some (.directory entries')

theorem Store.locate_kept (hkept : s.KeepsDirectories s') (hhere : s'.here = s.here)
    (h : s.locate path = .ok place) (hfound : s'.top.get? (s.address path) = some found) :
    s'.locate path = .ok (.taken (s.address path) found) := by
  rw [← Store.location_of_locate h] at hfound ⊢
  have hroute : s'.route path = s.route path := by rw [Store.route, Store.route, hhere]
  have hfollow : follow [] s'.top (s'.route path) = .ok (.taken place.location found) := by
    rw [hroute]
    exact follow_kept hkept (Store.locate_eq_ok h).2 rfl rfl rfl hfound
  unfold Store.locate at h ⊢
  split at h
  · exact nomatch h
  · next hnul =>
    split at h
    · exact nomatch h
    · next hempty =>
      split at h
      · exact nomatch h
      · next hsize =>
        rw [if_neg hnul, if_neg hempty, if_neg hsize]
        exact hfollow

end Files

end Stencil
