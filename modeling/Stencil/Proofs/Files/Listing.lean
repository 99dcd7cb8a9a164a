import Mathlib.Data.List.Nodup
import Stencil.Proofs.Files.Tree

/-! The listing of a file tree holds every file once, at the location where it is found. -/

namespace Stencil.Files.Entry

variable {e : Entry} {loc : Location} {f : Location × ByteArray × Stamp} {entries : Table Entry}

theorem files_directory (loc : Location) (entries : Table Entry) : (directory entries).files loc =
    entries.flatMap fun entry => entry.2.files (loc ++ [entry.1]) := by
  rw [files]
  induction entries with
  | nil => rw [filesOf]; rfl
  | cons entry entries ih => rw [filesOf, ih, List.flatMap_cons]

theorem mem_files (he : e.Sound) : f ∈ e.files loc ↔
    ∃ names, f.1 = loc ++ names ∧ e.get? names = some (file f.2.1 f.2.2) := by
  induction he generalizing loc with
  | @file bytes stamp =>
    rw [files, List.mem_singleton]
    constructor
    · rintro rfl
      exact ⟨[], (List.append_nil loc).symm, rfl⟩
    · rintro ⟨names, hloc, hget⟩
      cases names with
      | cons => cases hget
      | nil =>
        obtain ⟨hbytes, hstamp⟩ := file.inj (Option.some.inj hget)
        exact Prod.ext (hloc.trans (List.append_nil loc)) (Prod.ext hbytes.symm hstamp.symm)
  | @directory entries sorted _ _ ih =>
    rw [files_directory, List.mem_flatMap]
    constructor
    · rintro ⟨entry, hentry, hfile⟩
      have hname := lookup_of_mem sorted.nodup hentry
      obtain ⟨names, hloc, hget⟩ := (ih entry.1 entry.2 hname).1 hfile
      refine ⟨entry.1 :: names, by rw [hloc, List.append_assoc, List.singleton_append], ?_⟩
      rw [Entry.get?, Table.get?, hname]
      exact hget
    · rintro ⟨names, hloc, hget⟩
      cases names with
      | nil => cases hget
      | cons name names =>
        obtain ⟨e, hname, hget⟩ := Option.bind_eq_some_iff.1 hget
        refine ⟨(name, e), mem_of_lookup hname, (ih name e hname).2 ⟨names, ?_, hget⟩⟩
        rw [hloc, List.append_assoc, List.singleton_append]

/-- Different names lead to different files. -/
theorem nodup_files (he : e.Sound) (loc : Location) : ((e.files loc).map (·.1)).Nodup := by
  induction he generalizing loc with
  | file => exact List.nodup_singleton _
  | @directory entries sorted _ inner ih =>
    rw [files_directory, List.map_flatMap, List.nodup_flatMap]
    have hnames : entries.Pairwise fun entry other => entry.1 ≠ other.1 :=
      List.pairwise_map.1 sorted.nodup
    have hname (entry) (hentry : entry ∈ entries) := lookup_of_mem sorted.nodup hentry
    refine ⟨fun entry hentry => ih entry.1 entry.2 (hname entry hentry) _,
      hnames.imp_of_mem fun {entry other} hentry hother hne => ?_⟩
    rintro place hplace hplace'
    obtain ⟨f, hf, rfl⟩ := List.mem_map.1 hplace
    obtain ⟨f', hf', hsame⟩ := List.mem_map.1 hplace'
    obtain ⟨names, hloc, -⟩ := (mem_files (inner entry.1 entry.2 (hname entry hentry))).1 hf
    obtain ⟨names', hloc', -⟩ := (mem_files (inner other.1 other.2 (hname other hother))).1 hf'
    have hjoined : loc ++ entry.1 :: names = loc ++ other.1 :: names' := by
      simpa [hloc, hloc'] using hsame.symm
    exact hne (List.cons.inj (List.append_cancel_left hjoined)).1

end Stencil.Files.Entry
