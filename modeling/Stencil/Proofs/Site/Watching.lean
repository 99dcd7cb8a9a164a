import Stencil.Proofs.Files.Removal
import Stencil.Proofs.Files.Spelling
import Stencil.Proofs.Site.Listing

/-! Watching over a whole history of changes and scans. The watcher always holds what it saw at the
last scan, so each scan answers whether a file that is not ignored was added, removed or changed
since the scan before. Files are ignored by the path of the walk as it is written. Where that tells
where the files lie, changes below ignored paths go unseen; otherwise they need not. -/

namespace Stencil.Site

open Files

/-- What can happen to a store that is watched. -/
inductive Event where
  | write (path : String) (bytes : ByteArray) (stamp : Stamp)
  | remove (path : String)
  | make (path : String)
  | scan

namespace Event

/-- The path that is written, removed or made. -/
def path? : Event → Option String
  | write path .. | remove path | make path => some path
  | scan => none

def attempt (s : Store) : Except Fault Store → Store
  | .ok s' => s'
  | .error _ => s

/-- A change that fails changes nothing, nor does a scan. -/
def change (s : Store) : Event → Store
  | write path bytes stamp => attempt s (s.writeAt path bytes stamp)
  | remove path => attempt s (s.remove path)
  | make path => attempt s (s.makeDirectory path)
  | scan => s

/-- Nothing outside the ignored paths is touched. -/
def Within (s : Store) (ignore : List String) (event : Event) : Prop :=
  ∀ path ∈ event.path?, ∃ ignored ∈ ignore, s.address ignored <+: s.address path

variable {s s' : Store} {path : String} {event : Event} {events : List Event}

theorem attempt_spec {P : Store → Prop} {result : Except Fault Store}
    (hok : ∀ s', result = .ok s' → P s') (herror : P s) : P (attempt s result) := by
  cases result with
  | ok s' => exact hok s' rfl
  | error => exact herror

theorem evolves_change (event : Event) (s : Store) :
    Evolves (fun loc => ∃ path ∈ event.path?, loc = s.address path) s (event.change s) := by
  cases event with
  | write path bytes stamp =>
    refine attempt_spec (P := Evolves _ s) (fun s' h => ?_) (.refl _ s)
    exact (evolves_writeAt h).mono fun loc hloc => ⟨path, rfl, hloc⟩
  | remove path =>
    refine attempt_spec (P := Evolves _ s) (fun s' h => ?_) (.refl _ s)
    exact (evolves_remove h).mono fun loc hloc => ⟨path, rfl, hloc⟩
  | make path =>
    refine attempt_spec (P := Evolves _ s) (fun s' h => ?_) (.refl _ s)
    exact (evolves_makeDirectory h).mono fun _ hloc => hloc.elim
  | scan => exact .refl _ s

/-- Writing and removing files makes no directory. -/
theorem keeps_directories (event : Event) (hmake : ∀ path, event ≠ make path) (s : Store) :
    (event.change s).KeepsDirectories s := by
  have hself : s.KeepsDirectories s := fun _ entries hloc => ⟨entries, hloc⟩
  cases event with
  | write path bytes stamp =>
    refine attempt_spec (P := (·.KeepsDirectories s)) (fun s' h => ?_) hself
    exact fun loc entries hloc => directory_of_writeAt h hloc
  | remove path =>
    refine attempt_spec (P := (·.KeepsDirectories s)) (fun s' h => ?_) hself
    exact fun loc entries hloc => (directory_remove_iff h loc).1 ⟨entries, hloc⟩
  | make path => exact absurd rfl (hmake path)
  | scan => exact hself

theorem evolves_changes (events : List Event) (s : Store) :
    Evolves (fun loc => ∃ event ∈ events, ∃ path ∈ event.path?, loc = s.address path) s
      (events.foldl change s) := by
  induction events generalizing s with
  | nil => exact .refl _ s
  | cons event events ih =>
    have hfirst := event.evolves_change s
    refine (hfirst.mono fun loc hloc => ⟨event, List.mem_cons_self, hloc⟩).trans
      ((ih (event.change s)).mono fun loc ⟨later, hlater, path, hpath, hloc⟩ => ?_)
    rw [hfirst.address_eq] at hloc
    exact ⟨later, List.mem_cons_of_mem event hlater, path, hpath, hloc⟩

theorem keeps_directories_changes (hmake : ∀ path, make path ∉ events) (s : Store) :
    (events.foldl change s).KeepsDirectories s := by
  induction events generalizing s with
  | nil => exact fun _ entries h => ⟨entries, h⟩
  | cons event events ih =>
    intro loc entries hloc
    obtain ⟨entries', hloc'⟩ :=
      ih (fun path h => hmake path (List.mem_cons_of_mem event h)) (event.change s) loc entries hloc
    have hevent (path : String) : event ≠ make path := fun h => hmake path (h ▸ List.mem_cons_self)
    exact event.keeps_directories hevent s loc entries' hloc'

end Event

namespace Watcher

variable {s s' : Store} {e : Entry} {root : String} {ignore : List String} {names : Location}
  {bytes : ByteArray} {stamp : Stamp} {hidden within : Location → Prop}
  {before between events : List Event}

/-! What the watcher holds. -/

/-- A scan changes the watcher, any other event the store. -/
def step : Store × Watcher → Event → Store × Watcher
  | (s, w), .scan => (s, (w.scan s).2)
  | (s, w), event => (event.change s, w)

/-- The store and its watcher, which starts before the first event, after some events. -/
def run (root : String) (ignore : List String) (s : Store) (events : List Event) :
    Store × Watcher :=
  events.foldl step (s, start root ignore s)

/-- What a scan after some events answers, and the watcher then. -/
def answer (root : String) (ignore : List String) (s : Store) (events : List Event) :
    Bool × Watcher :=
  let (now, w) := run root ignore s events
  w.scan now

theorem step_fst (state : Store × Watcher) (event : Event) :
    (step state event).1 = event.change state.1 := by
  cases event <;> rfl

theorem foldl_step_fst (state : Store × Watcher) (events : List Event) :
    (events.foldl step state).1 = events.foldl Event.change state.1 := by
  induction events generalizing state with
  | nil => rfl
  | cons event events ih => rw [List.foldl_cons, List.foldl_cons, ih, step_fst]

/-- Only scans change the watcher. -/
theorem foldl_step_snd (hevents : .scan ∉ events) (state : Store × Watcher) :
    (events.foldl step state).2 = state.2 := by
  induction events generalizing state with
  | nil => rfl
  | cons event events ih =>
    rw [List.mem_cons, not_or] at hevents
    rw [List.foldl_cons, ih hevents.2]
    cases event with
    | scan => exact absurd rfl hevents.1
    | _ => rfl

theorem foldl_step_watches (state : Store × Watcher) (events : List Event) :
    (events.foldl step state).2.root = state.2.root ∧
      (events.foldl step state).2.ignore = state.2.ignore := by
  induction events generalizing state with
  | nil => exact ⟨rfl, rfl⟩
  | cons event events ih =>
    obtain ⟨hroot, hignore⟩ := ih (step state event)
    cases event <;> exact ⟨hroot, hignore⟩

/-- A scan leaves a watcher that might have started there and then. -/
theorem run_scan (hbefore : ∀ event ∈ before.getLast?, event = .scan) :
    (run root ignore s before).2 = start root ignore (run root ignore s before).1 := by
  obtain rfl | ⟨front, last, rfl⟩ := List.eq_nil_or_concat before
  · rfl
  · rw [List.concat_eq_append] at hbefore ⊢
    obtain rfl := hbefore last List.getLast?_concat
    obtain ⟨hroot, hignore⟩ := foldl_step_watches (s, start root ignore s) front
    rw [run, List.foldl_append, List.foldl_cons, List.foldl_nil]
    generalize front.foldl step (s, start root ignore s) = state at hroot hignore
    rw [step, scan, hroot, hignore]
    rfl

theorem answer_eq (hbefore : ∀ event ∈ before.getLast?, event = .scan)
    (hbetween : .scan ∉ between) :
    answer root ignore s (before ++ between) =
      (look root ignore (run root ignore s (before ++ between)).1 !=
          look root ignore (run root ignore s before).1,
        start root ignore (run root ignore s (before ++ between)).1) := by
  have hheld : (run root ignore s (before ++ between)).2 =
      start root ignore (run root ignore s before).1 := by
    rw [run, List.foldl_append, foldl_step_snd hbetween]
    exact run_scan hbefore
  rw [answer]
  dsimp only
  rw [hheld]
  rfl

/-! What a scan reports. -/

/-- Some file was added, removed or has another stamp. -/
inductive FileChange (was now : Location → Stamp → Prop) : Prop where
  | added {names : Location} {stamp : Stamp} (hnow : now names stamp) (hwas : ∀ old, ¬ was names old)
  | removed {names : Location} {stamp : Stamp} (hwas : was names stamp) (hnow : ∀ new, ¬ now names new)
  | modified {names : Location} {old new : Stamp} (hwas : was names old) (hnow : now names new)
      (hne : old ≠ new)

/-- The answer tells whether the files changed, and then the watcher tracks those there are. -/
structure Reports (was now : Location → Stamp → Prop) (answer : Bool × Watcher) : Prop where
  changed : answer.1 ↔ FileChange was now
  tracked : ∃ files : List Location, files.Nodup ∧
    (∀ names, names ∈ files ↔ ∃ stamp, now names stamp) ∧ answer.2.tracked = files.length

theorem fileChange_iff {was now : Location → Stamp → Prop}
    (hunique : ∀ names stamp stamp', now names stamp → now names stamp' → stamp = stamp') :
    FileChange was now ↔ ¬ ∀ names stamp, was names stamp ↔ now names stamp := by
  constructor
  · rintro (⟨hnow, hwas⟩ | ⟨hwas, hnow⟩ | ⟨hwas, hnow, hne⟩) hsame
    · exact hwas _ ((hsame _ _).2 hnow)
    · exact hnow _ ((hsame _ _).1 hwas)
    · exact hne (hunique _ _ _ ((hsame _ _).1 hwas) hnow)
  · intro hdiffer
    obtain ⟨names, hdiffer⟩ := not_forall.1 hdiffer
    obtain ⟨stamp, hdiffer⟩ := not_forall.1 hdiffer
    by_cases hnow : now names stamp
    · have hwas : ¬ was names stamp := fun hwas => hdiffer ⟨fun _ => hnow, fun _ => hwas⟩
      by_cases hold : ∃ old, was names old
      · obtain ⟨old, hold⟩ := hold
        exact .modified hold hnow fun heq => hwas (heq ▸ hold)
      · exact .added hnow (not_exists.1 hold)
    · have hwas : was names stamp :=
        Classical.not_not.1 fun hwas => hdiffer (iff_of_false hwas hnow)
      by_cases hnew : ∃ new, now names new
      · obtain ⟨new, hnew⟩ := hnew
        exact .modified hwas hnew fun heq => hnow (heq ▸ hnew)
      · exact .removed hwas (not_exists.1 hnew)

theorem reports_look (hs : s.Sound) (hs' : s'.Sound) (root : String) (ignore : List String) :
    Reports (Shown root (Spelled root ignore) s) (Shown root (Spelled root ignore) s')
      (look root ignore s' != look root ignore s, start root ignore s') where
  changed := by
    rw [fileChange_iff fun _ _ _ h h' => h.unique h', ← look_eq_iff hs hs', bne_iff_ne, ne_comm]
  tracked := by
    obtain ⟨files, hfiles, hlook⟩ := look_lists hs' root ignore
    refine ⟨files.map (·.1), hfiles.nodup, fun names => ?_, ?_⟩
    · rw [List.mem_map]
      constructor
      · rintro ⟨⟨names, stamp⟩, hmem, rfl⟩
        exact ⟨stamp, (hfiles.mem names stamp).1 hmem⟩
      · rintro ⟨stamp, hshown⟩
        exact ⟨(names, stamp), (hfiles.mem names stamp).2 hshown, rfl⟩
    · rw [tracked, start, hlook, List.length_map, List.length_map]

/-! Files below ignored paths. -/

/-- A file lies where some ignored path leads, or below. -/
def Below (s : Store) (root : String) (ignore : List String) (names : Location) : Prop :=
  ∃ path ∈ ignore, s.address path <+: s.address root ++ names

theorem spelled_iff_below (h : ∀ path ∈ ignore, Comparable s root path) (hroot : root ≠ "")
    (hnames : ∀ name ∈ names, IsName name) : Spelled root ignore names ↔ Below s root ignore names := by
  rw [spelled_iff hroot hnames, Below]
  refine exists_congr fun path => and_congr_right fun hpath => ?_
  exact (h path hpath).prefix_iff hnames

theorem shown_spelled (h : ∀ path ∈ ignore, Comparable s root path) (hs' : s'.Sound) :
    Shown root (Spelled root ignore) s' = Shown root (Below s root ignore) s' := by
  funext names stamp
  exact propext (shown_congr hs' fun names hroot hnames => spelled_iff_below h hroot hnames)

/-- A file that stays is still found below the root, if the directories on the way stay. -/
theorem find?_below (hkept : s.KeepsDirectories s') (hhere : s'.here = s.here)
    (hfind : s.find? root = .ok e) (hget : e.get? names = some (.file bytes stamp))
    (hstays : s'.top.get? (s.address root ++ names) = some (.file bytes stamp)) :
    ∃ e', s'.find? root = .ok e' ∧ e'.get? names = some (.file bytes stamp) := by
  obtain ⟨hlocate, hslash⟩ := Store.find?_eq_ok hfind
  rw [Entry.get?_append] at hstays
  obtain ⟨e', hroot, hget'⟩ := Option.bind_eq_some_iff.1 hstays
  -- a slash at the end of the root asks for the same as before
  have hkind : e'.isDirectory = e.isDirectory := by
    cases names with
    | nil => rw [Option.some.inj hget, Option.some.inj hget']
    | cons name names =>
      cases e with
      | file => exact nomatch hget
      | directory =>
        cases e' with
        | file => exact nomatch hget'
        | directory => rfl
  refine ⟨e', ?_, hget'⟩
  rw [Store.find?, Store.locate_kept hkept hhere hlocate hroot, ok_bind]
  dsimp only
  rw [hkind, hslash]
  rfl

theorem shown_iff_file (hfind : s.find? root = .ok e) : Shown root hidden s names stamp ↔
    ¬ hidden names ∧ ∃ bytes, s.top.get? (s.address root ++ names) = some (.file bytes stamp) := by
  rw [Shown, Entry.get?_append, Store.get?_address hfind, Option.bind_some]
  refine and_congr_right fun _ => ?_
  constructor
  · rintro ⟨e', bytes, hfind', hget⟩
    obtain rfl := Except.ok.inj (hfind.symm.trans hfind')
    exact ⟨bytes, hget⟩
  · rintro ⟨bytes, hget⟩
    exact ⟨e, bytes, hfind, hget⟩

theorem Shown.kept (hkept : s.KeepsDirectories s') (hhere : s'.here = s.here)
    (hfiles : ¬ hidden names → ∀ bytes,
      s.top.get? (s.address root ++ names) = some (.file bytes stamp) →
      s'.top.get? (s.address root ++ names) = some (.file bytes stamp))
    (h : Shown root hidden s names stamp) : Shown root hidden s' names stamp := by
  obtain ⟨hseen, e, bytes, hfind, hget⟩ := h
  have hold : s.top.get? (s.address root ++ names) = some (.file bytes stamp) := by
    rw [Entry.get?_append, Store.get?_address hfind]
    exact hget
  obtain ⟨e', hfind', hget'⟩ := find?_below hkept hhere hfind hget (hfiles hseen bytes hold)
  exact ⟨hseen, e', bytes, hfind', hget'⟩

/-- Changes to hidden files show nothing new, unless they make the root. -/
theorem shown_evolves (h : Evolves within s s')
    (hroot : s.isDirectory root ∨ s'.KeepsDirectories s)
    (hwithin : within (s.address root ++ names) → hidden names) :
    Shown root hidden s names stamp ↔ Shown root hidden s' names stamp := by
  have hfiles (hseen : ¬ hidden names) (bytes : ByteArray) :=
    h.files (s.address root ++ names) bytes stamp fun hin => hseen (hwithin hin)
  rcases hroot with hroot | hback
  · -- the root is found before and after
    obtain ⟨entries, hfind⟩ := Store.find?_of_isDirectory hroot
    obtain ⟨entries', hfind', -⟩ := h.find?_directory hfind
    rw [shown_iff_file hfind, shown_iff_file hfind', h.address_eq]
    exact and_congr_right fun hseen => exists_congr fun bytes => (hfiles hseen bytes).symm
  · -- neither way a directory on the way to the file is missing
    refine ⟨Shown.kept h.directories h.here fun hseen bytes => (hfiles hseen bytes).2,
      Shown.kept hback h.here.symm fun hseen bytes => ?_⟩
    rw [h.address_eq]
    exact (hfiles hseen bytes).1

/-- Changes below ignored paths show nothing new outside them. -/
theorem shown_within (hhere : s.here = s'.here) (hwithin : ∀ event ∈ events, event.Within s ignore)
    (hroot : s'.isDirectory root ∨ ∀ path, .make path ∉ events) :
    Shown root (Below s root ignore) s' names stamp ↔
      Shown root (Below s root ignore) (events.foldl Event.change s') names stamp := by
  refine shown_evolves (Event.evolves_changes events s')
    (hroot.imp_right fun hmake => Event.keeps_directories_changes hmake s') ?_
  rintro ⟨event, hevent, path, hpath, hloc⟩
  obtain ⟨ignored, hignored, hprefix⟩ := hwithin event hevent path hpath
  rw [← Store.address_eq hhere, ← Store.address_eq hhere] at hloc
  exact ⟨ignored, hignored, hloc ▸ hprefix⟩

/-- Each scan answers whether a file that is not ignored by its spelling was added, removed or
changed since the last one, or since the start, and the watcher then tracks these files. Where the
spelling of every ignored path can be relied on, these are the files that lie outside all ignored
paths, and changes below those alone are not reported. -/
theorem scan_reports (hs : s.Sound) (hbefore : ∀ event ∈ before.getLast?, event = .scan)
    (hbetween : .scan ∉ between) :
    Reports (Shown root (Spelled root ignore) (run root ignore s before).1)
      (Shown root (Spelled root ignore) (run root ignore s (before ++ between)).1)
      (answer root ignore s (before ++ between)) ∧
    ((∀ path ∈ ignore, Comparable s root path) →
      Reports (Shown root (Below s root ignore) (run root ignore s before).1)
        (Shown root (Below s root ignore) (run root ignore s (before ++ between)).1)
        (answer root ignore s (before ++ between)) ∧
      ((∀ event ∈ between, event.Within s ignore) →
        ((run root ignore s before).1.isDirectory root ∨ ∀ path, .make path ∉ between) →
        (answer root ignore s (before ++ between)).1 = false)) := by
  have hwas : (run root ignore s before).1 = before.foldl Event.change s := foldl_step_fst _ before
  have hnow : (run root ignore s (before ++ between)).1 =
      between.foldl Event.change (run root ignore s before).1 := by
    rw [run, foldl_step_fst, List.foldl_append, ← hwas]
  have hfirst := Event.evolves_changes before s
  rw [← hwas] at hfirst
  have hthen := Event.evolves_changes between (run root ignore s before).1
  rw [← hnow] at hthen
  have hsound := hfirst.sound hs
  have hreports := reports_look hsound (hthen.sound hsound) root ignore
  rw [← answer_eq hbefore hbetween] at hreports
  refine ⟨hreports, fun hcomparable => ?_⟩
  rw [shown_spelled hcomparable hsound, shown_spelled hcomparable (hthen.sound hsound)] at hreports
  refine ⟨hreports, fun hwithin hroot => Bool.eq_false_iff.2 fun hchanged => ?_⟩
  refine (fileChange_iff fun _ _ _ h h' => h.unique h').1 (hreports.changed.1 hchanged)
    fun names stamp => ?_
  rw [hnow]
  exact shown_within hfirst.here.symm hwithin hroot

/-- A page beside two directories. -/
def yard : Store :=
  [.write "index.html" "x".toUTF8 (.given 0), .make "a", .make "site"].foldl Event.change .empty

theorem sound_yard : yard.Sound :=
  (Event.evolves_changes _ .empty).sound ⟨Entry.sound_empty, fun _ h => absurd h List.not_mem_nil⟩

theorem comparable_site : ∀ path ∈ ["./site"], Comparable yard "." path := by
  intro path hpath
  obtain rfl := List.mem_singleton.1 hpath
  have hforks : Forks "." (Path.join "." "site") := forks_join (by decide) rfl (by decide)
  exact .forks hforks

/-- A page goes and one is built below the ignored path; only the first is reported. -/
theorem scan_reports_yard : yard.Sound ∧ (∀ path ∈ ["./site"], Comparable yard "." path) ∧
    (answer "." ["./site"] yard [.remove "index.html"]).1 = true ∧
    (answer "." ["./site"] yard
      ([.remove "index.html", .scan] ++ [.write "site/p.html" .empty (.given 1)])).1 = false := by
  refine ⟨sound_yard, comparable_site, by decide +kernel, ?_⟩
  have hwithin : ∀ event ∈ [Event.write "site/p.html" .empty (.given 1)],
      event.Within yard ["./site"] := by
    intro event hevent path hpath
    obtain rfl := List.mem_singleton.1 hevent
    obtain rfl := Option.some.inj hpath
    exact ⟨"./site", List.mem_singleton_self _, by decide +kernel⟩
  exact ((scan_reports sound_yard (by simp) (by simp)).2 comparable_site).2 hwithin
    (.inr (by simp))

/-- Ignored by way of the other directory, the built page is seen all the same. -/
theorem not_scan_within : ¬ ∀ (s : Store) (root : String) (ignore : List String)
    (before between : List Event), s.Sound → (∀ event ∈ before.getLast?, event = .scan) →
    .scan ∉ between → (∀ event ∈ between, event.Within s ignore) →
    (∀ path, .make path ∉ between) →
    (answer root ignore s (before ++ between)).1 = false := by
  intro h
  have hwithin : ∀ event ∈ [Event.write "site/p.html" .empty (.given 1)],
      event.Within yard ["./a/../site"] := by
    intro event hevent path hpath
    obtain rfl := List.mem_singleton.1 hevent
    obtain rfl := Option.some.inj hpath
    exact ⟨"./a/../site", List.mem_singleton_self _, by decide +kernel⟩
  have hseen : (answer "." ["./a/../site"] yard
      [.write "site/p.html" .empty (.given 1)]).1 = true := by decide +kernel
  have hunseen := h yard "." ["./a/../site"] [] _ sound_yard (by simp) (by simp) hwithin (by simp)
  cases hseen.symm.trans hunseen

end Watcher

end Stencil.Site
