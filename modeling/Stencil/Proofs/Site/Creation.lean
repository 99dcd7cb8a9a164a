import Stencil.Proofs.Files.Frame
import Stencil.Proofs.Site.Steps
import Stencil.Site.Starter

/-! Creating the starter site. Without force nothing is done to a root whose index is found. In any
other root the files are written in order, up to the first that cannot be written. Those before it
hold their contents, also where another file was, and no file elsewhere is touched. -/

namespace Stencil

namespace Files

variable {s s' : Store} {path : String} {bytes : ByteArray} {loc : Location}

/-- A path of names behind another one leads down by these names. -/
theorem Store.address_join_names (s : Store) (hrelative : Path.isAbsolute path = false)
    (hnames : ∀ name ∈ Path.parts path, IsName name) (base : String) :
    s.address (Path.join base path) = s.address base ++ Path.parts path := by
  by_cases hbase : base = ""
  · subst hbase
    have hjoin : Path.join "" path = path := by
      rw [Path.join, hrelative]
      rfl
    rw [hjoin, Store.address_eq_foldl, Store.address_eq_foldl, hrelative]
    exact foldl_move_names hnames _
  · rw [s.address_join_parts hbase hrelative, foldl_move_names hnames]

/-- Writing a file changes only what leads to it. -/
theorem get?_write_of_not_above (h : s.write path bytes = .ok s')
    (hloc : ¬ loc <+: s.address path) : s'.top.get? loc = s.top.get? loc := by
  by_cases hbelow : s.address path <+: loc
  · obtain ⟨more, rfl⟩ := hbelow
    obtain ⟨place, hplace, -, hold, rfl⟩ := Store.write_eq_ok h
    cases more with
    | nil => exact absurd (by simp) hloc
    | cons name more =>
      rw [Entry.get?_append, get?_put hplace, Entry.get?_append]
      cases hget : s.top.get? (s.address path) with
      | none => rfl
      | some e =>
        cases e with
        | file => rfl
        | directory entries => exact absurd hget (hold entries)
  · exact get?_write h ⟨hbelow, hloc⟩

end Files

namespace Site

open Files

namespace Starter

variable {root : String} {file : String × String} {files written rest : List (String × String)}
  {s s' between : Store}

/-- The path of a file below the root. -/
def target (root : String) (file : String × String) : String := Path.join root file.1

/-- Making the directories that a file lies in. -/
def makePlace (path : String) : Run Unit :=
  match Path.parent? path with
  | some up => makeDirectories up
  | none => pure ()

theorem run_writeFile (root : String) (file : String × String) (s : Store) :
    (writeFile root file).run s =
      match (makePlace (target root file)).run s with
      | (.error e, between) => (.error e, between)
      | (.ok (), between) =>
        match between.write (target root file) file.2.toUTF8 with
        | .ok s' => (.ok (target root file), s')
        | .error fault => (.error (.file (target root file) fault), between) := by
  have hsteps : writeFile root file = (do
      makePlace (target root file)
      write (target root file) file.2
      return target root file) := by
    rw [writeFile, makePlace, target]
    cases Path.parent? (Path.join root file.1) <;> rfl
  rw [hsteps, Action.run_bind]
  cases (makePlace (target root file)).run s with
  | mk result between =>
    cases result with
    | error e => rfl
    | ok =>
      dsimp only
      rw [Action.run_bind, write, Action.run_change]
      cases between.write (target root file) file.2.toUTF8 <;> rfl

/-- Making directories changes nothing but the ways to them. -/
structure MakesPlace (path : String) (s between : Store) : Prop where
  evolves : Evolves (fun _ => False) s between
  apart : ∀ loc, ¬ s.LeadsThrough path loc → between.top.get? loc = s.top.get? loc

theorem makesPlace_refl (path : String) (s : Store) : MakesPlace path s s :=
  ⟨.refl _ s, fun _ _ => rfl⟩

theorem run_makePlace (path : String) (s : Store) :
    MakesPlace path s ((makePlace path).run s).2 := by
  rw [makePlace]
  split
  · next up hparent =>
    rw [makeDirectories, Action.run_adapt]
    exact ⟨evolves_makeDirectories up s, fun loc hloc =>
      get?_makeDirectories fun hup => hloc (.of_parent hparent hup)⟩
  · exact makesPlace_refl path s

theorem makePlace_eq_error {path : String} {e : Error}
    (h : (makePlace path).run s = (.error e, between)) :
    ∃ up fault, Path.parent? path = some up ∧ e = .file up fault := by
  rw [makePlace] at h
  split at h
  · next up hparent =>
    rw [makeDirectories, Action.run_adapt] at h
    obtain ⟨fault, -, rfl⟩ := mapError_eq_error (congrArg Prod.fst h)
    exact ⟨up, fault, hparent, rfl⟩
  · exact nomatch h

/-- One file is written at its place, or it fails for its own path or for its directory. -/
theorem writeFile_cases (root : String) (file : String × String) (s : Store) :
    (∃ between next, (writeFile root file).run s = (.ok (target root file), next) ∧
      MakesPlace (target root file) s between ∧
        between.write (target root file) file.2.toUTF8 = .ok next) ∨
    ∃ path fault between, (writeFile root file).run s = (.error (.file path fault), between) ∧
      MakesPlace (target root file) s between ∧
        (path = target root file ∨ Path.parent? (target root file) = some path) := by
  have hplace := run_makePlace (target root file) s
  rw [run_writeFile]
  cases hmake : (makePlace (target root file)).run s with
  | mk result between =>
    rw [hmake] at hplace
    cases result with
    | error e =>
      obtain ⟨up, fault, hparent, rfl⟩ := makePlace_eq_error hmake
      exact .inr ⟨up, fault, between, rfl, hplace, .inr hparent⟩
    | ok =>
      dsimp only
      cases hwrite : between.write (target root file) file.2.toUTF8 with
      | error fault => exact .inr ⟨_, fault, between, rfl, hplace, .inl rfl⟩
      | ok next => exact .inl ⟨between, next, rfl, hplace, hwrite⟩

/-- What writing files comes to: `written` hold their contents, and of the others nothing but the
directories on the way to some of `files` has changed. -/
structure Written (root : String) (files written : List (String × String)) (s s' : Store) :
    Prop where
  contents : ∀ file ∈ written, s'.readText (target root file) = .ok file.2
  evolves : Evolves (fun loc => ∃ file ∈ written, loc = s.address (target root file)) s s'
  apart : ∀ loc, (∀ file ∈ files, ¬ s.LeadsThrough (target root file) loc) →
    s'.top.get? loc = s.top.get? loc

/-- How writing files ends: all of them are written, or the first of `rest` cannot be, for its own
path or for its directory. -/
def Ends (root : String) (files rest : List (String × String)) :
    Except Error (List String) → Prop
  | .ok paths => rest = [] ∧ paths = files.map (target root)
  | .error e => ∃ file others path fault, rest = file :: others ∧ e = .file path fault ∧
      (path = target root file ∨ Path.parent? (target root file) = some path)

theorem leadsThrough_evolves {within : Location → Prop} {path : String} {loc : Location}
    (h : Evolves within s s') : s'.LeadsThrough path loc ↔ s.LeadsThrough path loc := by
  unfold Store.LeadsThrough
  simp only [h.address_eq]

theorem Written.nil (root : String) (s : Store) : Written root [] [] s s :=
  ⟨fun _ h => absurd h List.not_mem_nil, .refl _ s, fun _ _ => rfl⟩

/-- A file that cannot be written is not there afterwards, but its directory may be. -/
theorem Written.stop (h : MakesPlace (target root file) s between) :
    Written root (file :: files) [] s between :=
  ⟨fun _ h => absurd h List.not_mem_nil, h.evolves.mono fun _ h => h.elim,
    fun loc hloc => h.apart loc (hloc file List.mem_cons_self)⟩

/-- A file that is written, and others behind it that go elsewhere. -/
theorem Written.cons {next : Store} (hplace : MakesPlace (target root file) s between)
    (hwrite : between.write (target root file) file.2.toUTF8 = .ok next)
    (hrest : Written root files written next s')
    (hdistinct : ∀ other ∈ written,
      s.address (target root file) ≠ s.address (target root other)) :
    Written root (file :: files) (file :: written) s s' := by
  have hstep := evolves_write hwrite
  simp only [hplace.evolves.address_eq] at hstep
  have hfirst := (hplace.evolves.mono fun _ h => h.elim).trans hstep
  have haddress := hfirst.address_eq
  have hevolves := hrest.evolves
  simp only [haddress] at hevolves
  refine ⟨List.forall_mem_cons.2 ⟨?_, hrest.contents⟩, ?_, fun loc hloc => ?_⟩
  · refine hevolves.readText ?_ (Store.readText_of_write hwrite)
    rintro ⟨other, hother, hsame⟩
    rw [haddress] at hsame
    exact hdistinct other hother hsame
  · refine (hfirst.mono fun loc hloc => ⟨file, List.mem_cons_self, hloc⟩).trans
      (hevolves.mono fun loc ⟨other, hother, hloc⟩ => ⟨other, List.mem_cons_of_mem _ hother, hloc⟩)
  · obtain ⟨hself, hothers⟩ := List.forall_mem_cons.1 hloc
    have hnext : next.top.get? loc = between.top.get? loc := by
      refine get?_write_of_not_above hwrite fun hprefix => hself ⟨_, .self, ?_⟩
      rwa [hplace.evolves.address_eq] at hprefix
    refine (hrest.apart loc fun other hother hthrough => hothers other hother ?_).trans
      (hnext.trans (hplace.apart loc hself))
    exact (leadsThrough_evolves hfirst).1 hthrough

theorem run_writeFiles (hdistinct : files.Pairwise fun file other =>
      s.address (target root file) ≠ s.address (target root other)) :
    ∃ written rest, files = written ++ rest ∧
      Written root files written s (Action.run (files.mapM (writeFile root)) s).2 ∧
      Ends root files rest (Action.run (files.mapM (writeFile root)) s).1 := by
  induction files generalizing s with
  | nil => exact ⟨[], [], rfl, .nil root s, rfl, rfl⟩
  | cons file files ih =>
    obtain ⟨hfile, hfiles⟩ := List.pairwise_cons.1 hdistinct
    rw [List.mapM_cons, Action.run_bind]
    obtain ⟨between, next, hrun, hplace, hwrite⟩ | ⟨path, fault, between, hrun, hplace, hpath⟩ :=
      writeFile_cases root file s
    · rw [hrun]
      dsimp only
      have haddress (path : String) : next.address path = s.address path := by
        rw [(evolves_write hwrite).address_eq, hplace.evolves.address_eq]
      simp only [← haddress] at hfiles
      obtain ⟨written, rest, rfl, hwritten, hends⟩ := ih hfiles
      have hall := Written.cons hplace hwrite hwritten fun other hother =>
        hfile other (List.mem_append_left _ hother)
      rw [Action.run_bind]
      generalize Action.run ((written ++ rest).mapM (writeFile root)) next = outcome
        at hall hends ⊢
      obtain ⟨result, last⟩ := outcome
      cases result with
      | error e => exact ⟨file :: written, rest, rfl, hall, hends⟩
      | ok paths =>
        obtain ⟨rfl, rfl⟩ := hends
        exact ⟨file :: written, [], rfl, hall, rfl, rfl⟩
    · rw [hrun]
      exact ⟨[], file :: files, rfl, .stop hplace, file, files, path, fault, rfl, rfl, hpath⟩

theorem files_names : ∀ file ∈ Starter.files, Path.isAbsolute file.1 = false ∧
    ∀ name ∈ Path.parts file.1, IsName name := by decide

theorem files_distinct : Starter.files.Pairwise fun file other =>
    Path.parts file.1 ≠ Path.parts other.1 := by decide

/-- The starter files go to different places. -/
theorem targets_distinct (root : String) (s : Store) : Starter.files.Pairwise fun file other =>
    s.address (target root file) ≠ s.address (target root other) := by
  refine files_distinct.imp_of_mem fun {file other} hfile hother hne => ?_
  obtain ⟨hrelative, hnames⟩ := files_names file hfile
  obtain ⟨hrelative', hnames'⟩ := files_names other hother
  rw [target, target, s.address_join_names hrelative hnames,
    s.address_join_names hrelative' hnames']
  exact fun heq => hne (List.append_cancel_left heq)

end Starter

open Starter

/-- What creating the starter site without force comes to. -/
structure Creates (root : String) (s : Store) : Prop where
  refuses : s.exists? (Path.join root indexName) →
    (create root false).run s = (.error (.siteExists root), s)
  writes : ¬ s.exists? (Path.join root indexName) →
    ∃ written rest, Starter.files = written ++ rest ∧
      Written root Starter.files written s ((create root false).run s).2 ∧
      Ends root Starter.files rest ((create root false).run s).1

theorem run_create (root : String) (s : Store) : (create root false).run s =
    if s.exists? (Path.join root indexName) then (.error (.siteExists root), s)
    else Action.run (Starter.files.mapM (writeFile root)) s := by
  rw [create, Action.run_bind, Action.run_get]
  dsimp only
  rw [Bool.not_false, Bool.and_true]
  split <;> rfl

theorem create_creates (root : String) (s : Store) : Creates root s where
  refuses h := by rw [run_create, if_pos h]
  writes h := by
    rw [run_create, if_neg h]
    exact run_writeFiles (targets_distinct root s)

/-! What is there already is neither kept nor, if the files cannot all be written, left alone. -/

/-- Nothing is done to the root, or the whole starter site is there beside all that was. -/
def LeavesAlone (root : String) (s : Store) : Prop :=
  (∃ e, (create root false).run s = (.error e, s)) ∨
    ∃ paths s', (create root false).run s = (.ok paths, s') ∧
      (∀ file ∈ Starter.files, s'.readText (target root file) = .ok file.2) ∧
      ∀ path text, s.readText path = .ok text → s'.readText path = .ok text

/-- A page of the author, under a name that the starter site uses. -/
def ownStore : Store := ⟨.directory [("about.html", .file "mine".toUTF8 (.given 0))], [], 0⟩

/-- A directory under the name of a starter file. -/
def blockedStore : Store := ⟨.directory [("about.html", .directory [])], [], 0⟩

theorem sound_ownStore : ownStore.Sound :=
  Store.sound_flat (List.pairwise_singleton _ _) (by decide) (by simp [Entry.isDirectory])

theorem sound_blockedStore : blockedStore.Sound := by
  refine ⟨.directory (List.pairwise_singleton _ _) (by decide) fun name e he => ?_,
    fun _ h => absurd h List.not_mem_nil⟩
  obtain ⟨-, rfl⟩ := Prod.mk.inj (List.mem_singleton.1 (mem_of_lookup he))
  exact Entry.sound_empty

theorem create_ownStore : ((create "." false).run ownStore).1.isOk ∧
    (((create "." false).run ownStore).2.readText "about.html").toOption =
      some (page "About!") := by decide +kernel

theorem create_blockedStore : ((create "." false).run blockedStore).1.isOk = false ∧
    ((create "." false).run blockedStore).2.isFile "index.html" := by decide +kernel

theorem not_leavesAlone : (blockedStore.Sound ∧ ¬ LeavesAlone "." blockedStore) ∧
    ownStore.Sound ∧ ¬ LeavesAlone "." ownStore := by
  refine ⟨⟨sound_blockedStore, ?_⟩, sound_ownStore, ?_⟩
  · obtain ⟨hfailed, hindex⟩ := create_blockedStore
    rintro (⟨e, hrun⟩ | ⟨paths, s', hrun, -⟩)
    · have hsame := congrArg (fun outcome => outcome.2.isFile "index.html") hrun
      have hnone : blockedStore.isFile "index.html" = false := by decide +kernel
      exact nomatch hnone.symm.trans (hsame.symm.trans hindex)
    · exact nomatch (congrArg (fun outcome => outcome.1.isOk) hrun).symm.trans hfailed
  · obtain ⟨hok, habout⟩ := create_ownStore
    rintro (⟨e, hrun⟩ | ⟨paths, s', hrun, -, hkept⟩)
    · exact nomatch (congrArg (fun outcome => outcome.1.isOk) hrun).symm.trans hok
    · have hown := congrArg (fun outcome => (outcome.2.readText "about.html").toOption) hrun
      have hmine := congrArg Except.toOption (hkept "about.html" "mine" (by rfl))
      exact absurd (hmine.symm.trans (hown.symm.trans habout)) (by decide)

end Site

end Stencil
