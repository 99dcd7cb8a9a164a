import Stencil.Proofs.Files.Listing
import Stencil.Proofs.Site.Sight

/-! What a watcher sees is a listing of the files below its root, each once, without those that it
ignores. Two stores look the same to it just if they show it the same files with the same stamps. -/

namespace Stencil.Site.Watcher

open Files

variable {s s' : Store} {e : Entry} {root : String} {ignore : List String} {names loc : Location}
  {bytes : ByteArray} {stamp : Stamp} {hidden hidden' : Location → Prop}

/-! What is there to see. -/

/-- A file below the root that is not hidden, by the names that lead to it from there. -/
def Shown (root : String) (hidden : Location → Prop) (s : Store) (names : Location)
    (stamp : Stamp) : Prop :=
  ¬ hidden names ∧ ∃ e bytes, s.find? root = .ok e ∧ e.get? names = some (.file bytes stamp)

/-- By the path of the walk, part by part, a file belongs to an ignored path. -/
def Spelled (root : String) (ignore : List String) (names : Location) : Prop :=
  isIgnored ignore (walk root names)

theorem ne_empty_of_find? (h : s.find? root = .ok e) : root ≠ "" :=
  (Store.locate_eq_ok (Store.find?_eq_ok h).1).1

theorem sound_of_find? (hs : s.Sound) (h : s.find? root = .ok e) : e.Sound :=
  hs.top.get? (Store.get?_address h)

theorem Shown.root_ne_empty (h : Shown root hidden s names stamp) : root ≠ "" := by
  obtain ⟨-, e, bytes, hfind, -⟩ := h
  exact ne_empty_of_find? hfind

theorem not_shown_of_error {fault : Fault} (h : s.find? root = .error fault) :
    ¬ Shown root hidden s names stamp := by
  rintro ⟨-, e, bytes, hfind, -⟩
  exact nomatch h.symm.trans hfind

theorem Shown.isName (hs : s.Sound) (h : Shown root hidden s names stamp) :
    ∀ name ∈ names, IsName name := by
  obtain ⟨-, e, bytes, hfind, hget⟩ := h
  exact isName_of_get? (sound_of_find? hs hfind) hget

theorem Shown.unique {stamp' : Stamp} (h : Shown root hidden s names stamp)
    (h' : Shown root hidden s names stamp') : stamp = stamp' := by
  obtain ⟨-, e, bytes, hfind, hget⟩ := h
  obtain ⟨-, e', bytes', hfind', hget'⟩ := h'
  obtain rfl := Except.ok.inj (hfind.symm.trans hfind')
  exact (Entry.file.inj (Option.some.inj (hget.symm.trans hget'))).2

theorem shown_congr (hs : s.Sound)
    (h : ∀ names, root ≠ "" → (∀ name ∈ names, IsName name) → (hidden names ↔ hidden' names)) :
    Shown root hidden s names stamp ↔ Shown root hidden' s names stamp := by
  refine and_congr_left fun ⟨e, bytes, hfind, hget⟩ => not_congr ?_
  exact h names (ne_empty_of_find? hfind) (isName_of_get? (sound_of_find? hs hfind) hget)

theorem spelled_iff (hroot : root ≠ "") (hnames : ∀ name ∈ names, IsName name) :
    Spelled root ignore names ↔
      ∃ path ∈ ignore, Path.components path <+: Path.components root ++ names := by
  rw [Spelled, isIgnored, List.any_eq_true]
  simp only [Path.startsWith, List.isPrefixOf_iff_prefix, components_walk hroot hnames]

theorem shown_iff_sight (h : s.find? root = .ok e) :
    Shown root (Spelled root ignore) s names stamp ↔ sight ignore root e names = some stamp := by
  rw [Shown, Spelled, sight]
  constructor
  · rintro ⟨hseen, e', bytes, hfind, hget⟩
    obtain rfl := Except.ok.inj (h.symm.trans hfind)
    rw [if_neg hseen]
    exact bind_stamp?_eq_some.2 ⟨bytes, hget⟩
  · intro hsight
    split at hsight
    · cases hsight
    · next hseen =>
      obtain ⟨bytes, hget⟩ := bind_stamp?_eq_some.1 hsight
      exact ⟨hseen, e, bytes, h, hget⟩

/-! What is seen is a listing of what is shown. -/

theorem walk_concat (root : String) (loc : Location) (name : String) :
    Path.join (walk root loc) name = walk root (loc ++ [name]) := by
  rw [walk, walk, List.foldl_append]
  rfl

theorem walk_inj {names' : Location} (hroot : root ≠ "") (hnames : ∀ name ∈ names, IsName name)
    (hnames' : ∀ name ∈ names', IsName name) (h : walk root names = walk root names') :
    names = names' := by
  have hcomponents := congrArg Path.components h
  rw [components_walk hroot hnames, components_walk hroot hnames'] at hcomponents
  exact List.append_cancel_left hcomponents

/-- A walk does not come out of an ignored directory. -/
theorem Spelled.append {more : Location} (h : Spelled root ignore loc) (hroot : root ≠ "")
    (hloc : ∀ name ∈ loc, IsName name) (hmore : ∀ name ∈ more, IsName name) :
    Spelled root ignore (loc ++ more) := by
  obtain ⟨path, hpath, hprefix⟩ := (spelled_iff hroot hloc).1 h
  refine (spelled_iff hroot (List.forall_mem_append.2 ⟨hloc, hmore⟩)).2 ⟨path, hpath, ?_⟩
  rw [← List.append_assoc]
  exact hprefix.trans (List.prefix_append _ more)

theorem stamps_eq_files (hroot : root ≠ "") (he : e.Sound) (hloc : ∀ name ∈ loc, IsName name) :
    stamps ignore (walk root loc) e =
      ((e.files loc).filter fun f => !isIgnored ignore (walk root f.1)).map
        fun f => (walk root f.1, f.2.2) := by
  induction he generalizing loc with
  | @file bytes stamp =>
    rw [stamps_eq, Entry.files]
    split
    · next hignored => simp [hignored]
    · next hseen => simp [hseen]
  | @directory entries sorted hnames inner ih =>
    rw [stamps_eq]
    split
    · next hignored =>
      refine (List.map_eq_nil_iff.2 (List.filter_eq_nil_iff.2 fun f hf => ?_)).symm
      obtain ⟨more, hmore, hget⟩ := (Entry.mem_files (.directory sorted hnames inner)).1 hf
      have hbelow : Spelled root ignore (loc ++ more) := Spelled.append hignored hroot hloc
        (isName_of_get? (.directory sorted hnames inner) hget)
      rw [hmore, show isIgnored ignore (walk root (loc ++ more)) = true from hbelow]
      simp
    · dsimp only
      rw [stampsOf_eq_flatMap, Entry.files_directory, List.filter_flatMap, List.map_flatMap]
      refine List.flatMap_congr fun entry hentry => ?_
      have hname : IsName entry.1 := hnames entry.1 (List.mem_map_of_mem hentry)
      rw [walk_concat]
      exact ih entry.1 entry.2 (lookup_of_mem sorted.nodup hentry)
        (List.forall_mem_append.2 ⟨hloc, List.forall_mem_singleton.2 hname⟩)

/-- A listing without repetition of the files that are shown. -/
structure Lists (shown : Location → Stamp → Prop) (files : List (Location × Stamp)) : Prop where
  nodup : (files.map (·.1)).Nodup
  mem (names : Location) (stamp : Stamp) : (names, stamp) ∈ files ↔ shown names stamp

theorem look_lists (hs : s.Sound) (root : String) (ignore : List String) :
    ∃ files, Lists (Shown root (Spelled root ignore) s) files ∧
      look root ignore s = files.map fun f => (walk root f.1, f.2) := by
  rw [look]
  cases hfind : s.find? root with
  | error =>
    exact ⟨[], ⟨.nil, fun _ _ => iff_of_false List.not_mem_nil (not_shown_of_error hfind)⟩, rfl⟩
  | ok e =>
    have he := sound_of_find? hs hfind
    refine ⟨((e.files []).filter fun f => !isIgnored ignore (walk root f.1)).map
      fun f => (f.1, f.2.2), ⟨?_, fun names stamp => ?_⟩, ?_⟩
    · rw [List.map_map]
      exact (Entry.nodup_files he []).sublist (List.filter_sublist.map _)
    · rw [shown_iff_sight hfind, sight, List.mem_map]
      constructor
      · rintro ⟨f, hf, hsame⟩
        obtain ⟨hfile, hseen⟩ := List.mem_filter.1 hf
        obtain ⟨more, hmore, hget⟩ := (Entry.mem_files he).1 hfile
        obtain ⟨rfl, rfl⟩ := Prod.mk.inj hsame
        rw [if_neg (by simpa using hseen), hmore]
        exact bind_stamp?_eq_some.2 ⟨_, hget⟩
      · intro hsight
        split at hsight
        · cases hsight
        · next hseen =>
          obtain ⟨bytes, hget⟩ := bind_stamp?_eq_some.1 hsight
          refine ⟨(names, bytes, stamp), List.mem_filter.2 ⟨?_, by simpa using hseen⟩, rfl⟩
          exact (Entry.mem_files he).2 ⟨names, rfl, hget⟩
    · rw [List.map_map]
      have hroot : root ≠ "" := ne_empty_of_find? hfind
      exact stamps_eq_files hroot he fun _ h => absurd h List.not_mem_nil

theorem look_congr (hs : s.Sound) (hs' : s'.Sound)
    (h : ∀ names stamp, Shown root (Spelled root ignore) s names stamp ↔
      Shown root (Spelled root ignore) s' names stamp) :
    look root ignore s = look root ignore s' := by
  rw [look, look]
  cases hfind : s.find? root with
  | ok e =>
    have he := sound_of_find? hs hfind
    cases hfind' : s'.find? root with
    | ok e' =>
      refine stamps_congr he (sound_of_find? hs' hfind') fun names => Option.ext fun stamp => ?_
      exact (shown_iff_sight hfind).symm.trans ((h names stamp).trans (shown_iff_sight hfind'))
    | error =>
      refine stamps_eq_nil he fun names => Option.eq_none_iff_forall_ne_some.2 fun stamp hsight => ?_
      exact not_shown_of_error hfind' ((h names stamp).1 ((shown_iff_sight hfind).2 hsight))
  | error =>
    cases hfind' : s'.find? root with
    | ok e' =>
      refine (stamps_eq_nil (sound_of_find? hs' hfind') fun names =>
        Option.eq_none_iff_forall_ne_some.2 fun stamp hsight => ?_).symm
      exact not_shown_of_error hfind ((h names stamp).2 ((shown_iff_sight hfind').2 hsight))
    | error => rfl

theorem Shown.of_look_eq (hs : s.Sound) (hs' : s'.Sound)
    (h : Shown root (Spelled root ignore) s names stamp)
    (hlook : look root ignore s = look root ignore s') :
    Shown root (Spelled root ignore) s' names stamp := by
  obtain ⟨files, hfiles, hseen⟩ := look_lists hs root ignore
  obtain ⟨files', hfiles', hseen'⟩ := look_lists hs' root ignore
  have hmem : (walk root names, stamp) ∈ look root ignore s' := by
    rw [← hlook, hseen]
    exact List.mem_map_of_mem ((hfiles.mem names stamp).2 h)
  rw [hseen'] at hmem
  obtain ⟨⟨names', stamp'⟩, hfile, hsame⟩ := List.mem_map.1 hmem
  obtain ⟨hwalk, rfl⟩ := Prod.mk.inj hsame
  have h' := (hfiles'.mem names' stamp').1 hfile
  obtain rfl := walk_inj h.root_ne_empty (h'.isName hs') (h.isName hs) hwalk
  exact h'

/-- The same is seen just if the same is shown. -/
theorem look_eq_iff (hs : s.Sound) (hs' : s'.Sound) :
    look root ignore s = look root ignore s' ↔
      ∀ names stamp, Shown root (Spelled root ignore) s names stamp ↔
        Shown root (Spelled root ignore) s' names stamp :=
  ⟨fun hlook _ _ => ⟨(·.of_look_eq hs hs' hlook), (·.of_look_eq hs' hs hlook.symm)⟩,
    look_congr hs hs'⟩

end Stencil.Site.Watcher
