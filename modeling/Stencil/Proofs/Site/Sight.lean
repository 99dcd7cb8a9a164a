import Stencil.Proofs.Files.Components
import Stencil.Proofs.Files.Inside
import Stencil.Site.Watch

/-! What a watcher sees: the stamps of the files below its root, by the names that lead to them. A
directory counts only for what is in it, so two stores look alike as soon as they have files with the
same stamps at every path that is not ignored. -/

namespace Stencil.Site

open Files

namespace Watcher

variable {s s' : Store} {e e' : Entry} {root path name : String} {ignore : List String}
  {names : List String} {entries : Table Entry}

/-- The path that a walk down by these names has reached. -/
def walk (path : String) (names : List String) : String := names.foldl Path.join path

theorem components_walk (hroot : root ≠ "") (hnames : ∀ name ∈ names, IsName name) :
    Path.components (walk root names) = Path.components root ++ names := by
  induction names generalizing root with
  | nil => exact (List.append_nil _).symm
  | cons name names ih =>
    obtain ⟨hname, hrest⟩ := List.forall_mem_cons.1 hnames
    have hstep : walk root (name :: names) = walk (Path.join root name) names := rfl
    rw [hstep, ih (Path.join_ne_empty hroot name) hrest, components_join_name hroot hname,
      List.append_assoc, List.singleton_append]

def stamp? : Entry → Option Stamp
  | .file _ stamp => some stamp
  | .directory _ => none

/-- The stamp of the file that a walk has reached, unless it is ignored there. -/
def sight (ignore : List String) (path : String) (e : Entry) (names : Location) : Option Stamp :=
  if isIgnored ignore (walk path names) then none else (e.get? names).bind stamp?

theorem sight_nil : sight ignore path e [] =
    if isIgnored ignore path then none else stamp? e := rfl

theorem sight_cons : sight ignore path (.directory entries) (name :: names) =
    (Table.get? entries name).bind fun e => sight ignore (Path.join path name) e names := by
  rw [sight, walk, List.foldl_cons, Entry.get?]
  cases Table.get? entries name with
  | none => simp
  | some e => rfl

theorem stamps_eq (ignore : List String) (path : String) (e : Entry) : stamps ignore path e =
    if isIgnored ignore path then [] else match e with
      | .file _ stamp => [(path, stamp)]
      | .directory entries => stampsOf ignore path entries := by
  cases e <;> rw [stamps]

/-! A directory is seen by what there is to see in it. -/

/-- The entries of a directory in which there is something to see, each with that. -/
def shown (ignore : List String) (path : String) : Table Entry → Table (List (String × Stamp))
  | [] => []
  | (name, e) :: rest =>
    if stamps ignore (Path.join path name) e = [] then shown ignore path rest
    else (name, stamps ignore (Path.join path name) e) :: shown ignore path rest

theorem stampsOf_eq_shown (ignore : List String) (path : String) (entries : Table Entry) :
    stampsOf ignore path entries = (shown ignore path entries).flatMap (·.2) := by
  induction entries with
  | nil => rw [stampsOf]; rfl
  | cons entry entries ih =>
    rw [stampsOf, shown, ih]
    split
    · next hnone => rw [hnone, List.nil_append]
    · rw [List.flatMap_cons]

theorem keys_shown_sublist : (shown ignore path entries).keys.Sublist entries.keys := by
  induction entries with
  | nil => exact .slnil
  | cons entry entries ih =>
    rw [shown]
    split
    · exact ih.cons _
    · exact ih.cons_cons _

theorem get?_shown (hsorted : entries.Sorted) (name : String) :
    (shown ignore path entries).get? name = (entries.get? name).bind fun e =>
      if stamps ignore (Path.join path name) e = [] then none
      else some (stamps ignore (Path.join path name) e) := by
  induction entries with
  | nil => rfl
  | cons entry entries ih =>
    obtain ⟨hhead, htail⟩ := List.pairwise_cons.1 hsorted
    have hrest := ih htail
    rw [shown, Table.get?_cons]
    by_cases hname : name = entry.1
    · subst hname
      rw [if_pos rfl, Option.bind_some]
      split
      · -- the name is there once
        rw [hrest, Table.get?_of_lt hhead]
        rfl
      · rw [Table.get?_cons, if_pos rfl]
    · rw [if_neg hname]
      split
      · exact hrest
      · rw [Table.get?_cons, if_neg hname, hrest]

theorem stampsOf_eq_flatMap (ignore : List String) (path : String) (entries : Table Entry) :
    stampsOf ignore path entries =
      entries.flatMap fun entry => stamps ignore (Path.join path entry.1) entry.2 := by
  induction entries with
  | nil => rw [stampsOf]; rfl
  | cons entry entries ih => rw [stampsOf, ih, List.flatMap_cons]

/-- Where no file is to be seen, nothing is seen. -/
theorem stamps_eq_nil (he : e.Sound) (h : ∀ names, sight ignore path e names = none) :
    stamps ignore path e = [] := by
  induction he generalizing path with
  | @file bytes stamp =>
    have hself := h []
    rw [stamps_eq]
    rw [sight_nil] at hself
    split at hself
    · next hignored => rw [if_pos hignored]
    · exact nomatch hself
  | @directory entries sorted _ _ ih =>
    rw [stamps_eq]
    split
    · rfl
    · refine (stampsOf_eq_flatMap ignore path entries).trans (List.flatMap_eq_nil_iff.2 ?_)
      intro entry hentry
      have hget : entries.get? entry.1 = some entry.2 := lookup_of_mem sorted.nodup hentry
      refine ih entry.1 entry.2 hget fun names => ?_
      have hnames := h (entry.1 :: names)
      rwa [sight_cons, hget, Option.bind_some] at hnames

/-- Where the same files are to be seen, the same is seen. -/
theorem stamps_congr (he : e.Sound) (he' : e'.Sound)
    (h : ∀ names, sight ignore path e names = sight ignore path e' names) :
    stamps ignore path e = stamps ignore path e' := by
  induction he generalizing e' path with
  | @file bytes stamp =>
    have hself := h []
    rw [stamps_eq, stamps_eq]
    rw [sight_nil, sight_nil] at hself
    split
    · rfl
    · next hseen =>
      rw [if_neg hseen, if_neg hseen] at hself
      cases e' with
      | directory entries => exact nomatch hself
      | file bytes' stamp' => rw [Option.some.inj hself]
  | @directory entries sorted _ inner ih =>
    have hself := h []
    rw [stamps_eq, stamps_eq]
    rw [sight_nil, sight_nil] at hself
    split
    · rfl
    · next hseen =>
      rw [if_neg hseen, if_neg hseen] at hself
      cases he' with
      | file => exact nomatch hself
      | @directory entries' sorted' _ inner' =>
        dsimp only
        rw [stampsOf_eq_shown, stampsOf_eq_shown]
        congr 1
        refine Table.Sorted.ext (sorted.sublist keys_shown_sublist)
          (sorted'.sublist keys_shown_sublist) fun name => ?_
        rw [get?_shown sorted, get?_shown sorted']
        have hbelow (names : List String) := h (name :: names)
        simp only [sight_cons] at hbelow
        cases hget : Table.get? entries name with
        | some e =>
          cases hget' : Table.get? entries' name with
          | some e' =>
            rw [hget, hget'] at hbelow
            rw [Option.bind_some, Option.bind_some, ih name e hget (inner' name e' hget') hbelow]
          | none =>
            rw [hget, hget'] at hbelow
            rw [Option.bind_some, stamps_eq_nil (inner name e hget) hbelow]
            rfl
        | none =>
          cases hget' : Table.get? entries' name with
          | some e' =>
            rw [hget, hget'] at hbelow
            rw [Option.bind_some, stamps_eq_nil (inner' name e' hget') fun names =>
              (hbelow names).symm]
            rfl
          | none => rfl

/-! Stores. -/

theorem bind_stamp?_eq_some {found : Option Entry} {stamp : Stamp} :
    found.bind stamp? = some stamp ↔ ∃ bytes, found = some (.file bytes stamp) := by
  rcases found with _ | ⟨bytes, stamp'⟩ | entries <;> simp [stamp?, eq_comm]

/-- A walk that arrives goes by names. -/
theorem isName_of_get? {found : Entry} (he : e.Sound) (h : e.get? names = some found) :
    ∀ name ∈ names, IsName name := by
  induction names generalizing e with
  | nil => exact fun _ h => absurd h List.not_mem_nil
  | cons name names ih =>
    cases he with
    | file => exact nomatch h
    | directory _ hnames inner =>
      obtain ⟨e', hget, hrest⟩ := Option.bind_eq_some_iff.1 h
      have hkey := List.mem_map_of_mem (f := (·.1)) (mem_of_lookup hget)
      exact List.forall_mem_cons.2 ⟨hnames name hkey, ih (inner name e' hget) hrest⟩

/-- Changes to files that are ignored where a walk from the root finds them are not seen. -/
theorem look_eq {within : Location → Prop} (hs : s.Sound) (h : Evolves within s s')
    (hroot : s.find? root = .ok (.directory entries))
    (hignored : ∀ names, names ≠ [] → (∀ name ∈ names, IsName name) →
      within (s.address root ++ names) → isIgnored ignore (walk root names)) :
    look root ignore s' = look root ignore s := by
  obtain ⟨entries', hroot', hget'⟩ := h.find?_directory hroot
  have hget := Store.get?_address hroot
  rw [look, look, hroot, hroot']
  refine stamps_congr ((h.sound hs).of_find? hroot') (hs.of_find? hroot) fun names => ?_
  rw [sight, sight]
  split
  · rfl
  · next hseen =>
    have hbelow (names : Location) : s.top.get? (s.address root ++ names) =
        (Entry.directory entries).get? names := by rw [Entry.get?_append, hget, Option.bind_some]
    have hbelow' (names : Location) : s'.top.get? (s.address root ++ names) =
        (Entry.directory entries').get? names := by rw [Entry.get?_append, hget', Option.bind_some]
    refine Option.ext fun stamp => ?_
    rw [bind_stamp?_eq_some, bind_stamp?_eq_some]
    refine exists_congr fun bytes => ?_
    by_cases hnil : names = []
    · -- the root itself is a directory before and after
      subst hnil
      simp [Entry.get?]
    · by_cases hnames : ∀ name ∈ names, IsName name
      · rw [← hbelow, ← hbelow']
        exact h.files _ _ _ fun hwithin => hseen (hignored names hnil hnames hwithin)
      · -- no walk goes by other parts than names
        have hsound' := (h.sound hs).of_find? hroot'
        constructor
        · exact fun hfound => absurd (isName_of_get? hsound' hfound) hnames
        · exact fun hfound => absurd (isName_of_get? (hs.of_find? hroot) hfound) hnames

end Watcher

end Stencil.Site
