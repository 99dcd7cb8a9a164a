import Stencil.Fallible
import Stencil.Proofs.Site.Steps

/-! Builds that are refused before the first page. A missing index and an output that is there
already are found before anything is changed. The context is read once the output directory has been
made, so a build refused for its context leaves that directory behind, and without force the same
build is refused from then on, whatever its context. -/

namespace Stencil.Site

open Files

variable {s s' start : Store} {o : Options} {e : Error} {path : String}

/-- What a refused build leaves behind. -/
structure Refuses (o : Options) (s : Store) : Prop where
  missingIndex : s.isFile (Path.join o.root indexName) = false →
    (build o).run s = (.error (.missingIndex o.root), s)
  outputExists : s.isFile (Path.join o.root indexName) → s.exists? o.outputPath →
    o.force = false → (build o).run s = (.error (.outputExists o.outputPath), s)
  /-- The store as it is once the output directory is made: no file is another one, and nothing
  has changed if the directory was there. -/
  badContext (start : Store) (e : Error) : s.isFile (Path.join o.root indexName) →
    (s.exists? o.outputPath → o.force) →
    (makeDirectories o.outputPath).run s = (.ok (), start) → pageContext o start = .error e →
    (build o).run s = (.error e, start) ∧ Evolves (fun _ => False) s start ∧
      (s.isDirectory o.outputPath → start = s)
  /-- After that the build is refused for its output. -/
  again (start : Store) : s.isFile (Path.join o.root indexName) → o.outputPath ≠ "" →
    (makeDirectories o.outputPath).run s = (.ok (), start) →
    ∀ context, (build ⟨o.root, o.output, false, context⟩).run start =
      (.error (.outputExists o.outputPath), start)

theorem build_outputExists (hindex : s.isFile (Path.join o.root indexName))
    (hexists : s.exists? o.outputPath) (hforce : o.force = false) :
    (build o).run s = (.error (.outputExists o.outputPath), s) := by
  rw [run_build, if_pos hindex, if_pos (by simp [hexists, hforce])]

theorem build_badContext (hindex : s.isFile (Path.join o.root indexName))
    (hfree : s.exists? o.outputPath → o.force)
    (hmake : (makeDirectories o.outputPath).run s = (.ok (), start))
    (hcontext : pageContext o start = .error e) : (build o).run s = (.error e, start) := by
  have hopen : ¬ (s.exists? o.outputPath && !o.force) = true := by simpa using hfree
  rw [run_build, if_pos hindex, if_neg hopen, buildPages, Action.run_bind_of_ok hmake]
  refine Action.run_bind_of_error ?_ _
  rw [Action.run_look, hcontext]

theorem exists_of_isDirectory (h : s.isDirectory path) : s.exists? path := by
  obtain ⟨entries, hfind⟩ := Store.find?_of_isDirectory h
  rw [Store.exists?, hfind]
  rfl

theorem isFile_evolves (h : Evolves (fun _ => False) s s') (hfile : s.isFile path) :
    s'.isFile path := by
  unfold Store.isFile at hfile
  split at hfile
  · next bytes stamp hfind =>
    rw [Store.isFile, h.find? id hfind]
  · exact nomatch hfile

theorem build_refuses (o : Options) (s : Store) : Refuses o s where
  missingIndex h := by rw [run_build, if_neg (by simp [h])]
  outputExists := build_outputExists
  badContext start e hindex hfree hmake hcontext := by
    have hrun := run_makeDirectories hmake
    refine ⟨build_badContext hindex hfree hmake hcontext, ?_, fun hthere => ?_⟩
    · have hevolves := evolves_makeDirectories o.outputPath s
      rwa [hrun] at hevolves
    · rw [makeDirectories_of_isDirectory hthere] at hrun
      exact (congrArg Prod.snd hrun).symm
  again start hindex houtput hmake context := by
    have hrun := run_makeDirectories hmake
    have hevolves := evolves_makeDirectories o.outputPath s
    rw [hrun] at hevolves
    have hthere := isDirectory_of_makeDirectories houtput hrun
    exact build_outputExists (o := ⟨o.root, o.output, false, context⟩)
      (isFile_evolves hevolves hindex) (exists_of_isDirectory hthere) rfl

/-- A page, and a context that is a list. -/
def listStore : Store := ⟨.directory [("ctx.json", .file "[1]".toUTF8 (.given 0)),
  ("index.html", .file "x".toUTF8 (.given 0))], [], 0⟩

def withList : Options := ⟨".", "site", false, some "ctx.json"⟩

theorem sound_listStore : listStore.Sound :=
  Store.sound_flat (List.pairwise_pair.2 (by decide)) (by decide) (by simp [Entry.isDirectory])

theorem build_listStore : ∃ start, (build withList).run listStore =
      (.error (.wrongContext "ctx.json" "list"), start) ∧ start.exists? "./site" := by
  have hmade : ((makeDirectories "./site").run listStore).1.toOption = some () := by decide +kernel
  have hthere : ((makeDirectories "./site").run listStore).2.exists? "./site" := by decide +kernel
  have hcontext : pageContext withList ((makeDirectories "./site").run listStore).2 =
      .error (.wrongContext "ctx.json" "list") := by rfl
  refine ⟨_, build_badContext (by decide +kernel) (fun h => absurd h (by decide +kernel)) ?_
    hcontext, hthere⟩
  exact Prod.ext (eq_ok_of_toOption hmade) rfl

theorem not_build_unchanged : ¬ ∀ (s s' : Store) (o : Options) (e : Error), s.Sound →
    (build o).run s = (.error e, s') → pageContext o s = .error e → s' = s := by
  intro h
  obtain ⟨start, hrun, hthere⟩ := build_listStore
  obtain rfl := h listStore start withList _ sound_listStore hrun (by rfl)
  exact absurd hthere (by decide +kernel)

end Stencil.Site
