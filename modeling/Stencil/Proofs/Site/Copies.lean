import Stencil.Fallible
import Stencil.Proofs.Files.Inside
import Stencil.Proofs.Site.Steps

/-! Copying a directory. If neither of the two lies in the other, every file of the source is at the
target afterwards with the same bytes. If they are one place, every file ends up empty. A copy into
the source itself has no end: the copy is one of the names that are copied. Nothing changes but what
lies at the target or below it. -/

namespace Stencil

namespace Files

variable {s s' : Store} {source target path : String} {bytes : ByteArray} {stamp : Stamp}
  {loc : Location}

theorem Store.find?_of_read (h : s.read path = .ok bytes) :
    ∃ stamp, s.find? path = .ok (.file bytes stamp) := by
  obtain ⟨e, hfind, hbytes⟩ := bind_eq_ok h
  cases e with
  | directory entries => exact nomatch hbytes
  | file found stamp =>
    obtain rfl := Except.ok.inj hbytes
    exact ⟨stamp, hfind⟩

/-- What copying a file comes to when it ends well: it is there, and the target is empty when it is
read. -/
theorem copyFile_eq_ok (h : s.copyFile source target = .ok s') :
    (∃ bytes stamp, s.find? source = .ok (.file bytes stamp)) ∧
      ∃ emptied bytes stamp, s.write target .empty = .ok emptied ∧
        emptied.find? source = .ok (.file bytes stamp) ∧ emptied.write target bytes = .ok s' := by
  obtain ⟨bytes, hread, h⟩ := bind_eq_ok h
  obtain ⟨emptied, hemptied, h⟩ := bind_eq_ok h
  obtain ⟨bytes', hread', hwrite⟩ := bind_eq_ok h
  obtain ⟨stamp', hfind'⟩ := Store.find?_of_read hread'
  exact ⟨⟨bytes, Store.find?_of_read hread⟩, emptied, bytes', stamp', hemptied, hfind', hwrite⟩

/-- What was written is there. -/
theorem get?_of_write (h : s.write path bytes = .ok s') :
    s'.top.get? (s.address path) = some (.file bytes (.tick s.clock)) := by
  rw [← (evolves_write h).address_eq]
  exact Store.get?_address (Store.find?_of_write h)

theorem get?_copyFile (h : s.copyFile source target = .ok s')
    (hne : s.address source ≠ s.address target)
    (hfile : s.top.get? (s.address source) = some (.file bytes stamp)) :
    ∃ stamp', s'.top.get? (s.address target) = some (.file bytes stamp') := by
  obtain ⟨-, emptied, bytes', stamp', hemptied, hfind, hwrite⟩ := copyFile_eq_ok h
  have hevolves := evolves_write hemptied
  have hkept := (hevolves.files _ _ _ hne).2 hfile
  rw [← hevolves.address_eq, Store.get?_address hfind] at hkept
  obtain ⟨rfl, -⟩ := Entry.file.inj (Option.some.inj hkept)
  rw [← hevolves.address_eq]
  exact ⟨_, get?_of_write hwrite⟩

/-- A file that is copied onto itself is emptied before it is read. -/
theorem get?_copyFile_itself (h : s.copyFile source target = .ok s')
    (hsame : s.address source = s.address target) :
    ∃ stamp, s'.top.get? (s.address target) = some (.file .empty stamp) := by
  obtain ⟨-, emptied, bytes', stamp', hemptied, hfind, hwrite⟩ := copyFile_eq_ok h
  have hevolves := evolves_write hemptied
  have hempty := get?_of_write hemptied
  rw [← hsame, ← hevolves.address_eq, Store.get?_address hfind] at hempty
  obtain ⟨rfl, -⟩ := Entry.file.inj (Option.some.inj hempty)
  rw [← hevolves.address_eq]
  exact ⟨_, get?_of_write hwrite⟩

theorem get?_copyFile_apart (h : s.copyFile source target = .ok s')
    (hapart : Apart (s.address target) loc) : s'.top.get? loc = s.top.get? loc := by
  obtain ⟨-, emptied, bytes', stamp', hemptied, -, hwrite⟩ := copyFile_eq_ok h
  have haddress := (evolves_write hemptied).address_eq target
  exact (get?_write hwrite (haddress ▸ hapart)).trans (get?_write hemptied hapart)

end Files

namespace Site

open Files

variable {s s' made : Store} {root output source target name : String} {names : List String}
  {depth : Nat} {loc loc' rest : Location} {bytes : ByteArray} {stamp : Stamp}
  {entries : Table Entry}

/-- Copying some entries of one directory into another. -/
def copyEach (depth : Nat) (source target : String) (names : List String) : Run Unit :=
  names.forM fun name => copyEntry depth (Path.join source name) (Path.join target name)

/-- What copying an entry comes to when it ends well. -/
theorem copyEntry_eq_ok (h : (copyEntry (depth + 1) source target).run s = (.ok (), s')) :
    (∃ entries made, s.find? source = .ok (.directory entries) ∧
      (Files.makeDirectories target).run s = (.ok (), made) ∧
      (copyEach depth source target (namesIn made source)).run made = (.ok (), s')) ∨
    s.copyFile source target = .ok s' := by
  rw [copyEntry, Action.run_bind, Action.run_get] at h
  dsimp only at h
  split at h
  · next entries hfind =>
    obtain ⟨_, made, hmade, hrest⟩ := Action.run_bind_eq_ok h
    exact .inl ⟨entries, made, hfind, run_makeDirectories hmade, hrest⟩
  · rw [Action.run_change] at h
    split at h
    · next hcopy =>
      cases h
      exact .inr hcopy
    · cases h

theorem evolves_made (h : (Files.makeDirectories target).run s = (.ok (), made)) :
    Evolves (fun _ => False) s made := by
  have hevolves := evolves_makeDirectories target s
  rwa [h] at hevolves

/-- Every entry of the source is one of those that are copied. -/
theorem mem_namesIn (hsource : s.find? source = .ok (.directory entries)) {e : Entry}
    (hget : s.top.get? (s.address source ++ name :: rest) = some e) : name ∈ namesIn s source := by
  rw [Entry.get?_append, Store.get?_address hsource, Option.bind_some] at hget
  obtain ⟨inner, hinner, -⟩ := Option.bind_eq_some_iff.1 hget
  rw [namesIn, hsource]
  exact List.mem_map.2 ⟨_, mem_of_lookup hinner, rfl⟩

theorem nodup_namesIn (hs : s.Sound) (hsource : s.find? source = .ok (.directory entries)) :
    (namesIn s source).Nodup := by
  rw [namesIn, hsource]
  cases hs.of_find? hsource with
  | directory sorted _ _ => exact sorted.nodup

theorem evolves_copyEach (hs : s.Sound) (htarget : target ≠ "")
    (hnames : ∀ name ∈ names, IsName name) :
    Evolves (fun loc => ∃ name ∈ names, s.address target ++ [name] <+: loc) s
      ((copyEach depth source target names).run s).2 := by
  refine Action.evolves_forM fun name hname next hnext => ?_
  refine (evolves_copyEntry depth (hnext.sound hs) (Path.join_ne_empty htarget name)).mono
    fun loc hloc => ⟨name, hname, ?_⟩
  rwa [next.address_join_name htarget (hnames name hname), hnext.address_eq] at hloc

/-- Copying some entries, where it goes well, divided at one of them. -/
theorem copyEach_split (hs : s.Sound) (htarget : target ≠ "") (hnames : ∀ n ∈ names, IsName n)
    (hname : name ∈ names) (h : (copyEach depth source target names).run s = (.ok (), s')) :
    ∃ before after turn next, names = before ++ name :: after ∧
      Evolves (fun loc => ∃ n ∈ before, s.address target ++ [n] <+: loc) s turn ∧
      (copyEntry depth (Path.join source name) (Path.join target name)).run turn =
        (.ok (), next) ∧
      Evolves (fun loc => ∃ n ∈ after, s.address target ++ [n] <+: loc) next s' := by
  obtain ⟨before, after, rfl⟩ := List.append_of_mem hname
  obtain ⟨turn, next, hbefore, hstep, hafter⟩ := Action.run_forM_split h
  have hfirst : Evolves _ s ((copyEach depth source target before).run s).2 :=
    evolves_copyEach hs htarget fun n hn => hnames n (List.mem_append_left _ hn)
  rw [copyEach, hbefore] at hfirst
  have hmid : Evolves _ turn
      ((copyEntry depth (Path.join source name) (Path.join target name)).run turn).2 :=
    evolves_copyEntry depth (hfirst.sound hs) (Path.join_ne_empty htarget name)
  rw [hstep] at hmid
  have hlast : Evolves _ next ((copyEach depth source target after).run next).2 :=
    evolves_copyEach (hmid.sound (hfirst.sound hs)) htarget
      fun n hn => hnames n (List.mem_append_right _ (List.mem_cons_of_mem _ hn))
  rw [copyEach, hafter, hmid.address_eq, hfirst.address_eq] at hlast
  exact ⟨before, after, turn, next, rfl, hfirst, hstep, hlast⟩

/-- The copying of one entry among those of a directory: before and after it nothing changes but the
targets of the other entries. -/
structure CopyTurn (depth : Nat) (source target name : String) (made turn next s' : Store) :
    Prop where
  sourceName : turn.address (Path.join source name) = made.address source ++ [name]
  targetName : turn.address (Path.join target name) = made.address target ++ [name]
  before : Evolves (fun loc => made.address target <+: loc ∧
    ∀ rest, loc ≠ made.address target ++ name :: rest) made turn
  step : (copyEntry depth (Path.join source name) (Path.join target name)).run turn = (.ok (), next)
  after : Evolves (fun loc => made.address target <+: loc ∧
    ∀ rest, loc ≠ made.address target ++ name :: rest) next s'

theorem copyEach_turn (hs : s.Sound) (hsource : source ≠ "") (htarget : target ≠ "")
    (hfind : s.find? source = .ok (.directory entries)) (hname : name ∈ namesIn s source)
    (h : (copyEach depth source target (namesIn s source)).run s = (.ok (), s')) :
    ∃ turn next, CopyTurn depth source target name s turn next s' := by
  have hnames (n : String) : n ∈ namesIn s source → IsName n := isName_of_mem_namesIn hs
  obtain ⟨before, after, turn, next, hsplit, hbefore, hstep, hafter⟩ :=
    copyEach_split hs htarget hnames hname h
  have hnodup := nodup_namesIn hs hfind
  rw [hsplit] at hnodup
  obtain ⟨-, hrest, hapart⟩ := List.nodup_append.1 hnodup
  -- the targets of the other names lie apart from that of this one
  have hother (others : List String) (hne : name ∉ others) (loc : Location)
      (hloc : ∃ n ∈ others, s.address target ++ [n] <+: loc) :
      s.address target <+: loc ∧ ∀ rest, loc ≠ s.address target ++ name :: rest := by
    obtain ⟨n, hn, hprefix⟩ := hloc
    refine ⟨(List.prefix_append _ _).trans hprefix, ?_⟩
    rintro rest rfl
    rw [List.prefix_append_right_inj] at hprefix
    exact hne ((List.cons_prefix_cons.1 hprefix).1 ▸ hn)
  refine ⟨turn, next, ?_, ?_, hbefore.mono (hother before fun hmem => ?_), hstep,
    hafter.mono (hother after (List.nodup_cons.1 hrest).1)⟩
  · rw [turn.address_join_name hsource (hnames name hname), hbefore.address_eq]
  · rw [turn.address_join_name htarget (hnames name hname), hbefore.address_eq]
  · exact hapart name hmem name List.mem_cons_self rfl

/-- The copying of one file of a directory: the file is as it was when its turn comes, and the copy
stays as it is afterwards. -/
structure FileTurn (source target : Location) (bytes : ByteArray) (stamp : Stamp)
    (path path' : String) (turn next s' : Store) : Prop where
  source_eq : turn.address path = source
  target_eq : turn.address path' = target
  found : turn.top.get? source = some (.file bytes stamp)
  step : turn.copyFile path path' = .ok next
  stays (bytes' : ByteArray) (stamp' : Stamp) :
    next.top.get? target = some (.file bytes' stamp') →
      s'.top.get? target = some (.file bytes' stamp')

/-- Two locations that are one, or lie apart. -/
def OneOrApart (loc loc' : Location) : Prop := loc = loc' ∨ Apart loc loc'

theorem OneOrApart.append (h : OneOrApart loc loc') (more : Location) :
    OneOrApart (loc ++ more) (loc' ++ more) :=
  h.imp (congrArg (· ++ more)) fun hapart => hapart.append more more

/-- Every file below a directory that is copied onto itself or elsewhere has its turn. -/
theorem copyEntry_file (hs : s.Sound) (hsource : source ≠ "") (htarget : target ≠ "")
    (hplaces : OneOrApart (s.address source) (s.address target))
    (h : (copyEntry depth source target).run s = (.ok (), s'))
    (hfile : s.top.get? (s.address source ++ rest) = some (.file bytes stamp)) :
    ∃ path path' turn next, FileTurn (s.address source ++ rest) (s.address target ++ rest) bytes
      stamp path path' turn next s' := by
  induction depth generalizing s s' source target rest with
  | zero => exact nomatch h
  | succ depth ih =>
    rcases copyEntry_eq_ok h with ⟨entries, made, hfind, hmade, heach⟩ | hcopy
    · have hevolves := evolves_made hmade
      have hmadeSound := hevolves.sound hs
      have hfile := (hevolves.files _ _ _ id).2 hfile
      obtain ⟨entries', hfind', hentries'⟩ := hevolves.find?_directory hfind
      cases rest with
      | nil =>
        rw [List.append_nil, hentries'] at hfile
        exact nomatch hfile
      | cons name rest =>
        rw [← hevolves.address_eq source] at hfile hplaces ⊢
        rw [← hevolves.address_eq target] at hplaces ⊢
        obtain ⟨turn, next, hturn⟩ := copyEach_turn hmadeSound hsource htarget hfind'
          (mem_namesIn hfind' hfile) heach
        have hthere : turn.top.get? (made.address source ++ name :: rest) =
            some (.file bytes stamp) := by
          refine (hturn.before.files _ bytes stamp fun hloc => ?_).2 hfile
          rcases hplaces with hone | hapart
          · exact hloc.2 rest (by rw [hone])
          · exact hapart.symm.not_prefix_append _ hloc.1
        have hsourceAt : turn.address (Path.join source name) ++ rest =
            made.address source ++ name :: rest := by rw [hturn.sourceName, ← List.append_cons]
        have htargetAt : turn.address (Path.join target name) ++ rest =
            made.address target ++ name :: rest := by rw [hturn.targetName, ← List.append_cons]
        obtain ⟨path, path', turn', next', hinner⟩ := ih (hturn.before.sound hmadeSound)
          (Path.join_ne_empty hsource name) (Path.join_ne_empty htarget name)
          (by rw [hturn.sourceName, hturn.targetName]; exact hplaces.append [name]) hturn.step
          (by rw [hsourceAt]; exact hthere)
        rw [hsourceAt, htargetAt] at hinner
        refine ⟨path, path', turn', next', hinner.source_eq, hinner.target_eq, hinner.found,
          hinner.step, fun bytes' stamp' hnext => ?_⟩
        exact (hturn.after.files _ _ _ fun hloc => hloc.2 rest rfl).2 (hinner.stays _ _ hnext)
    · obtain ⟨⟨bytes', stamp', hfind⟩, -⟩ := copyFile_eq_ok hcopy
      cases rest with
      | cons name rest =>
        rw [Entry.get?_append, Store.get?_address hfind] at hfile
        exact nomatch hfile
      | nil =>
        rw [List.append_nil] at hfile ⊢
        rw [List.append_nil]
        exact ⟨source, target, s, s', rfl, rfl, hfile, hcopy, fun _ _ => id⟩

/-- The files of a directory are copied to a place apart from it. -/
theorem copyEntry_copies (hs : s.Sound) (hsource : source ≠ "") (htarget : target ≠ "")
    (hapart : Apart (s.address source) (s.address target))
    (h : (copyEntry depth source target).run s = (.ok (), s'))
    (hfile : s.top.get? (s.address source ++ rest) = some (.file bytes stamp)) :
    ∃ stamp', s'.top.get? (s.address target ++ rest) = some (.file bytes stamp') := by
  obtain ⟨path, path', turn, next, hturn⟩ :=
    copyEntry_file hs hsource htarget (.inr hapart) h hfile
  have hne : turn.address path ≠ turn.address path' := by
    rw [hturn.source_eq, hturn.target_eq]
    exact fun heq => (hapart.append rest rest).notAbove (heq ▸ List.prefix_rfl)
  obtain ⟨stamp', hcopied⟩ := get?_copyFile hturn.step hne (hturn.source_eq.symm ▸ hturn.found)
  rw [hturn.target_eq] at hcopied
  exact ⟨stamp', hturn.stays bytes stamp' hcopied⟩

/-- The files of a directory that is copied onto itself end up empty. -/
theorem copyEntry_onto_itself (hs : s.Sound) (hsource : source ≠ "") (htarget : target ≠ "")
    (hsame : s.address source = s.address target)
    (h : (copyEntry depth source target).run s = (.ok (), s'))
    (hfile : s.top.get? (s.address source ++ rest) = some (.file bytes stamp)) :
    ∃ stamp', s'.top.get? (s.address target ++ rest) = some (.file .empty stamp') := by
  obtain ⟨path, path', turn, next, hturn⟩ :=
    copyEntry_file hs hsource htarget (.inl hsame) h hfile
  have hone : turn.address path = turn.address path' := by
    rw [hturn.source_eq, hturn.target_eq, hsame]
  obtain ⟨stamp', hempty⟩ := get?_copyFile_itself hturn.step hone
  rw [hturn.target_eq] at hempty
  exact ⟨stamp', hturn.stays .empty stamp' hempty⟩

/-- A directory is not copied into itself: however deep the copy goes, there is one more to make. -/
theorem copyEntry_into_itself (hs : s.Sound) (hsource : source ≠ "") (htarget : target ≠ "")
    (hbelow : s.address target = s.address source ++ rest) (hrest : rest ≠ [])
    (hdirectory : s.top.get? (s.address source) = some (.directory entries)) :
    (copyEntry depth source target).run s ≠ (.ok (), s') := by
  intro h
  induction depth generalizing s s' source target rest entries with
  | zero => exact nomatch h
  | succ depth ih =>
    rcases copyEntry_eq_ok h with ⟨found, made, hfind, hmade, heach⟩ | hcopy
    · have hevolves := evolves_made hmade
      have hmadeSound := hevolves.sound hs
      obtain ⟨entries', hfind', -⟩ := hevolves.find?_directory hfind
      obtain ⟨name, rest, rfl⟩ := List.exists_cons_of_ne_nil hrest
      -- the target that has just been made is one of the entries of the source, or below one
      obtain ⟨copied, htop⟩ :=
        Store.find?_of_isDirectory (isDirectory_of_makeDirectories htarget hmade)
      have htop := Store.get?_address htop
      rw [hevolves.address_eq, hbelow, ← hevolves.address_eq source] at htop
      have hentry : ∃ inner, made.top.get? (made.address source ++ [name]) =
          some (.directory inner) := by
        cases rest with
        | nil => exact ⟨copied, htop⟩
        | cons next rest =>
          rw [List.append_cons] at htop
          exact Entry.directory_above htop
      obtain ⟨turn, next, hturn⟩ := copyEach_turn hmadeSound hsource htarget hfind'
        (mem_namesIn hfind' htop) heach
      have htargetName : turn.address (Path.join target name) =
          turn.address (Path.join source name) ++ (rest ++ [name]) := by
        rw [hturn.sourceName, hturn.targetName, hevolves.address_eq, hbelow, hevolves.address_eq,
          List.append_assoc, List.append_assoc]
        rfl
      obtain ⟨inner, hinner⟩ := hentry
      obtain ⟨inner', hinner'⟩ := hturn.before.directories _ _ hinner
      rw [← hturn.sourceName] at hinner'
      exact ih (hturn.before.sound hmadeSound) (Path.join_ne_empty hsource name)
        (Path.join_ne_empty htarget name) htargetName
        (List.append_ne_nil_of_right_ne_nil rest (List.cons_ne_nil name [])) hinner' hturn.step
    · obtain ⟨⟨bytes, stamp, hfind⟩, -⟩ := copyFile_eq_ok hcopy
      exact nomatch hdirectory.symm.trans (Store.get?_address hfind)

/-! What lies apart from the target. -/

/-- Where the target has its place, no other directory is made for it. -/
theorem get?_copyEntry (hs : s.Sound) (htarget : target ≠ "") (hplace : s.HasPlace target)
    (hapart : Apart (s.address target) loc)
    (h : (copyEntry depth source target).run s = (.ok (), s')) :
    s'.top.get? loc = s.top.get? loc := by
  induction depth generalizing s s' source target with
  | zero => exact nomatch h
  | succ depth ih =>
    rcases copyEntry_eq_ok h with ⟨entries, made, hfind, hmade, heach⟩ | hcopy
    · have hevolves := evolves_made hmade
      have hmadeSound := hevolves.sound hs
      have hthere := isDirectory_of_makeDirectories htarget hmade
      have hsame := hplace.get?_makeDirectories htarget hapart.notBelow
      rw [hmade] at hsame
      rw [← hsame]
      -- the target is a directory all along, so that each entry has its place in it
      suffices Evolves (fun _ => True) made s' ∧ s'.top.get? loc = made.top.get? loc from this.2
      refine Action.forM_keeps (P := fun next => Evolves (fun _ => True) made next ∧
        next.top.get? loc = made.top.get? loc) (fun name hname mid mid' hmid hstep => ?_)
        ⟨.refl _ made, rfl⟩ heach
      obtain ⟨hmid, hmidSame⟩ := hmid
      have hisName := isName_of_mem_namesIn hmadeSound hname
      have hne := Path.join_ne_empty htarget name
      have haddress : mid.address (Path.join target name) = s.address target ++ [name] := by
        rw [mid.address_join_name htarget hisName, hmid.address_eq, hevolves.address_eq]
      have hnext : Evolves _ mid
          ((copyEntry depth (Path.join source name) (Path.join target name)).run mid).2 :=
        evolves_copyEntry depth (hmid.sound hmadeSound) hne
      rw [hstep] at hnext
      refine ⟨hmid.trans (hnext.mono fun _ _ => trivial), ?_⟩
      rw [← hmidSame]
      have hinner := hapart.append [name] []
      rw [List.append_nil, ← haddress] at hinner
      exact ih (hmid.sound hmadeSound) hne (Store.hasPlace_join (hmid.isDirectory hthere) hisName)
        hinner hstep
    · exact get?_copyFile_apart hcopy hapart

end Site

end Stencil
