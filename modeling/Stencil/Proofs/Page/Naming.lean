import Stencil.Page.Inclusion
import Stencil.Proofs.Text.Trimming

/-! Canonical names. Normalizing takes off blanks, quotes and blanks, and then leading `/` and `./`;
what these stood before is not looked at again. A name is plain if nothing of that is left on it.
Where normalizing leaves a plain name, the page is kept, read and recorded under that one name. -/

namespace Stencil.Page

open Text

/-- What may stand around a name: blanks and quotes. -/
def isWrapping (c : Char) : Bool := isBlank c || isQuote c

/-- A name with nothing around it and no `/` or `./` before it. -/
structure Plain (name : String) : Prop where
  bare : Bare isWrapping name.toList
  slash : ¬ ['/'] <+: name.toList
  dot : ¬ ['.', '/'] <+: name.toList

/-- Any number of `/` and `./`. -/
inductive Leading : List Char → Prop where
  | nil : Leading []
  | slash {lead : List Char} (rest : Leading lead) : Leading ('/' :: lead)
  | dot {lead : List Char} (rest : Leading lead) : Leading ('.' :: '/' :: lead)

/-- A path that writes a name: with any `/` and `./` before it, blanks around that, quotes around
these, and blanks around all. -/
def Wraps (path name : String) : Prop :=
  ∃ lead spaced quoted, Leading lead ∧ Around isBlank (lead ++ name.toList) spaced ∧
    Around isQuote spaced quoted ∧ Around isBlank quoted path.toList

theorem not_isBlank_of_isQuote {c : Char} (h : isQuote c) : isBlank c = false := by
  obtain rfl | rfl : c = '"' ∨ c = '\'' := by simpa [isQuote] using h
  · rfl
  · rfl

/-! Leading `/` and `./`. -/

theorem length_dropLeading_le (cs : List Char) : (dropLeading cs).length ≤ cs.length := by
  fun_induction dropLeading cs <;> grind

theorem dropLeading_eq_self {cs : List Char} (hslash : ¬ ['/'] <+: cs)
    (hdot : ¬ ['.', '/'] <+: cs) : dropLeading cs = cs := by
  fun_cases dropLeading cs with
  | case1 cs => exact absurd ⟨cs, rfl⟩ hdot
  | case2 cs => exact absurd ⟨cs, rfl⟩ hslash
  | case3 => rfl

theorem not_slash_dropLeading (cs : List Char) : ¬ ['/'] <+: dropLeading cs := by
  fun_induction dropLeading cs with
  | case1 cs ih => exact ih
  | case2 cs ih => exact ih
  | case3 cs _ hslash =>
    rintro ⟨rest, rfl⟩
    exact hslash rest rfl

theorem not_dot_dropLeading (cs : List Char) : ¬ ['.', '/'] <+: dropLeading cs := by
  fun_induction dropLeading cs with
  | case1 cs ih => exact ih
  | case2 cs ih => exact ih
  | case3 cs hdot _ =>
    rintro ⟨rest, rfl⟩
    exact hdot rest rfl

theorem exists_leading (cs : List Char) : ∃ lead, Leading lead ∧ cs = lead ++ dropLeading cs := by
  fun_induction dropLeading cs with
  | case1 cs ih =>
    obtain ⟨lead, hlead, heq⟩ := ih
    exact ⟨_, hlead.dot, congrArg (fun cs => '.' :: '/' :: cs) heq⟩
  | case2 cs ih =>
    obtain ⟨lead, hlead, heq⟩ := ih
    exact ⟨_, hlead.slash, congrArg ('/' :: ·) heq⟩
  | case3 cs => exact ⟨[], .nil, rfl⟩

theorem Leading.dropLeading_append {lead : List Char} (h : Leading lead) (cs : List Char) :
    dropLeading (lead ++ cs) = dropLeading cs := by
  induction h with
  | nil => rfl
  | slash _ ih => exact ih
  | dot _ ih => exact ih

theorem Leading.bare_append {lead cs : List Char} (h : Leading lead) (hcs : Bare isWrapping cs)
    (hne : cs ≠ []) : Bare isWrapping (lead ++ cs) := by
  refine ⟨?_, by rw [List.getLast?_append_of_ne_nil _ hne]; exact hcs.back⟩
  cases h with
  | nil => exact hcs.front
  | slash _ => rintro _ ⟨⟩; rfl
  | dot _ => rintro _ ⟨⟩; rfl

/-! Names that stay as they are. -/

theorem toList_normalize (path : String) :
    (normalize path).toList = dropLeading (trim (trimBy isQuote (trim path.toList))) :=
  String.toList_ofList

theorem Plain.normalize_eq {name : String} (h : Plain name) : normalize name = name := by
  obtain ⟨hblank, hquote⟩ := bare_or_iff.1 h.bare
  have htrim : trim name.toList = name.toList := hblank.trimBy_eq_self
  rw [← String.toList_inj, toList_normalize, htrim, hquote.trimBy_eq_self, htrim,
    dropLeading_eq_self h.slash h.dot]

/-- A step of normalizing that changes a name shortens it, so a name that stays passes every step
unchanged. -/
theorem plain_of_normalize_eq {name : String} (h : normalize name = name) : Plain name := by
  have heq := toList_normalize name
  rw [h] at heq
  have hdrop := length_dropLeading_le (trim (trimBy isQuote (trim name.toList)))
  rw [← heq] at hdrop
  have hinner : (trim (trimBy isQuote (trim name.toList))).length ≤
      (trimBy isQuote (trim name.toList)).length := (isInfix_trimBy _ _).length_le
  have hquotes := (isInfix_trimBy isQuote (trim name.toList)).length_le
  have hblank : Bare isBlank name.toList :=
    bare_of_length_le (hdrop.trans (hinner.trans hquotes))
  have htrim : trim name.toList = name.toList := hblank.trimBy_eq_self
  rw [htrim] at hdrop hinner
  refine ⟨bare_or_iff.2 ⟨hblank, bare_of_length_le (hdrop.trans hinner)⟩, ?_, ?_⟩
  · rw [heq]
    exact not_slash_dropLeading _
  · rw [heq]
    exact not_dot_dropLeading _

theorem normalize_eq_self_iff {name : String} : normalize name = name ↔ Plain name :=
  ⟨plain_of_normalize_eq, Plain.normalize_eq⟩

/-! Paths that write a name. -/

theorem wraps_normalize (path : String) : Wraps path (normalize path) := by
  obtain ⟨lead, hlead, heq⟩ := exists_leading (trim (trimBy isQuote (trim path.toList)))
  refine ⟨lead, trimBy isQuote (trim path.toList), trim path.toList, hlead, ?_,
    around_trimBy _ _, around_trimBy _ _⟩
  rw [toList_normalize, ← heq]
  exact around_trimBy _ _

/-- Blanks, quotes and blanks before a name are gone when blanks, quotes and blanks are dropped. -/
theorem dropWhile_layers {outer quotes inner : List Char} (houter : ∀ c ∈ outer, isBlank c)
    (hquotes : ∀ c ∈ quotes, isQuote c) (hinner : ∀ c ∈ inner, isBlank c) :
    (((outer ++ (quotes ++ inner)).dropWhile isBlank).dropWhile isQuote).dropWhile isBlank =
      [] := by
  rw [List.dropWhile_append_of_pos houter]
  cases quotes with
  | nil =>
    rw [List.nil_append, List.dropWhile_eq_nil_iff.2 hinner]
    rfl
  | cons c quotes =>
    have hfirst := not_isBlank_of_isQuote (hquotes c List.mem_cons_self)
    rw [List.cons_append, List.dropWhile_cons_of_neg (by simp [hfirst]), ← List.cons_append,
      List.dropWhile_append_of_pos hquotes, List.dropWhile_eq_nil_iff]
    exact fun c hc => hinner c ((List.dropWhile_suffix isQuote).subset hc)

theorem rdropWhile_layers {outer quotes inner : List Char} (houter : ∀ c ∈ outer, isBlank c)
    (hquotes : ∀ c ∈ quotes, isQuote c) (hinner : ∀ c ∈ inner, isBlank c) :
    (((inner ++ quotes ++ outer).rdropWhile isBlank).rdropWhile isQuote).rdropWhile isBlank =
      [] := by
  have houter' : ∀ c ∈ outer.reverse, isBlank c := by simpa using houter
  have hquotes' : ∀ c ∈ quotes.reverse, isQuote c := by simpa using hquotes
  have hinner' : ∀ c ∈ inner.reverse, isBlank c := by simpa using hinner
  have h := dropWhile_layers houter' hquotes' hinner'
  simp only [List.rdropWhile, List.reverse_append, List.reverse_reverse, h, List.reverse_nil]

theorem Plain.normalize_of_wraps {name path : String} (h : Plain name) (hne : name ≠ "")
    (hwraps : Wraps path name) : normalize path = name := by
  obtain ⟨lead, spaced, quoted, hlead, ⟨front₃, back₃, hfront₃, hback₃, rfl⟩,
    ⟨front₂, back₂, hfront₂, hback₂, rfl⟩, front₁, back₁, hfront₁, hback₁, hpath⟩ := hwraps
  have hname : name.toList ≠ [] := fun hnil => hne (String.toList_inj.1 hnil)
  obtain ⟨hblank, hquote⟩ := bare_or_iff.1 (hlead.bare_append h.bare hname)
  have hcore : lead ++ name.toList ≠ [] := List.append_ne_nil_of_right_ne_nil _ hname
  have hsplit : path.toList = front₁ ++ (front₂ ++ front₃) ++ (lead ++ name.toList) ++
      (back₃ ++ back₂ ++ back₁) := by
    simp only [hpath, List.append_assoc]
  rw [← String.toList_inj, toList_normalize, hsplit]
  simp only [trim]
  rw [trimBy_append hblank hcore, trimBy_append hquote hcore, trimBy_append hblank hcore,
    dropWhile_layers hfront₁ hfront₂ hfront₃, rdropWhile_layers hback₁ hback₂ hback₃,
    List.nil_append, List.append_nil, hlead.dropLeading_append, dropLeading_eq_self h.slash h.dot]

/-! Names and files. -/

/-- The file that a name leads to: the name it is kept under, and its text. -/
def Library.file? (library : Library) (name : String) : Option (String × String) :=
  (Table.get? library (normalize name)).map (normalize name, ·)

theorem Library.load_eq (library : Library) (name : String) :
    library.loader.load name = (library.file? name).elim
      (Except.error (.missing (normalize name) "no such file")) (fun file => .ok file.2) := by
  simp only [Loader.load, loader, read, file?]
  cases Table.get? library (normalize name) <;> rfl

theorem Library.file?_insert (library : Library) (path source : String) :
    (library.insert path source).file? path = some (normalize path, source) := by
  rw [file?, insert, Table.get?_insert, if_pos rfl]
  rfl

theorem Library.eq_of_file? {library : Library} {name : String} {file : String × String}
    (h : library.file? name = some file) : normalize name = file.1 := by
  obtain ⟨text, -, rfl⟩ := Option.map_eq_some_iff.1 h
  rfl

/-- Names that lead to the same files are normalized to the same name. -/
theorem normalize_eq_of_file? {name name' : String}
    (h : ∀ library : Library, library.file? name = library.file? name') :
    normalize name = normalize name' := by
  have hfile := h (Library.insert [] name "")
  rw [Library.file?_insert] at hfile
  exact (Library.eq_of_file? hfile.symm).symm

/-- A normalized path is normalized to itself if and only if it is plain; the paths that write a
plain name are those that are normalized to it. Then, and only then, the normalized path leads in
every library to the file that the path itself leads to, and a page put in under the path is read
under the normalized one. Two such paths that lead to one file are normalized to one name. -/
theorem normalize_settles (path : String) :
    (normalize (normalize path) = normalize path ↔ Plain (normalize path)) ∧
      (∀ name, name ≠ "" → Plain name → (normalize path = name ↔ Wraps path name)) ∧
      ((∀ library : Library, library.file? (normalize path) = library.file? path ∧
        library.loader.load (normalize path) = library.loader.load path) ↔
          Plain (normalize path)) ∧
      ((∀ (library : Library) (source : String),
        (library.insert path source).loader.load (normalize path) = .ok source) ↔
          Plain (normalize path)) ∧
      (Plain (normalize path) → ∀ path', Plain (normalize path') →
        ∀ (library : Library) (file : String × String),
          library.file? (normalize path) = some file →
            library.file? (normalize path') = some file → normalize path = normalize path') := by
  have hfile (h : Plain (normalize path)) (library : Library) :
      library.file? (normalize path) = library.file? path := by
    rw [Library.file?, h.normalize_eq]
    rfl
  refine ⟨normalize_eq_self_iff, fun name hne hplain => ?_, ⟨fun h => ?_, fun h library => ?_⟩,
    ⟨fun h => ?_, fun h library source => ?_⟩, fun h path' h' library file hget hget' => ?_⟩
  · constructor
    · rintro rfl
      exact wraps_normalize path
    · exact hplain.normalize_of_wraps hne
  · exact plain_of_normalize_eq (normalize_eq_of_file? fun library => (h library).1)
  · refine ⟨hfile h library, ?_⟩
    rw [Library.load_eq, Library.load_eq, hfile h library, h.normalize_eq]
  · have hload := h [] ""
    rw [Library.load_eq] at hload
    cases hget : (Library.insert [] path "").file? (normalize path) with
    | none =>
      rw [hget] at hload
      cases hload
    | some file =>
      refine plain_of_normalize_eq ((Library.eq_of_file? hget).trans ?_)
      obtain ⟨text, hentry, rfl⟩ := Option.map_eq_some_iff.1 hget
      rw [Library.insert, Table.get?_insert] at hentry
      split at hentry
      · assumption
      · cases hentry
  · rw [Library.load_eq, hfile h, Library.file?_insert]
    rfl
  · rw [← h.normalize_eq, ← h'.normalize_eq, Library.eq_of_file? hget, Library.eq_of_file? hget']

/-- A name in quotes with a blank in it, after `./` and among blanks. -/
theorem normalize_settles_quoted : Plain (normalize " ' ./a b.html' ") ∧
    normalize " ' ./a b.html' " = "a b.html" ∧
    (Library.insert [] " ' ./a b.html' " "x").loader.load "a b.html" = .ok "x" := by
  have hname : normalize " ' ./a b.html' " = "a b.html" := by decide +kernel
  have h := normalize_settles " ' ./a b.html' "
  have hplain : Plain (normalize " ' ./a b.html' ") := by
    refine h.1.1 ?_
    rw [hname]
    decide +kernel
  have hload := h.2.2.2.1.2 hplain [] "x"
  rw [hname] at hload
  exact ⟨hplain, hname, hload⟩

/-- Of the quotes behind a slash the second is taken off at once, the first only the next time. -/
theorem not_normalize_settles :
    normalize (normalize "/\"a\"") ≠ normalize "/\"a\"" ∧
      ((Library.insert [] "/\"a\"" "x").loader.load "/\"a\"" = .ok "x" ∧
        (Library.insert [] "/\"a\"" "x").loader.load (normalize "/\"a\"") =
          .error (.missing "a" "no such file") ∧
        expandIncludes (Library.insert [] "/\"a\"" "x").loader "page" "\x7b# /\"a\" #\x7d" =
          .error (.missing "a" "no such file")) ∧
      Library.file? [("a", "x")] (normalize "/\"a\"") = some ("a", "x") ∧
      Library.file? [("a", "x")] (normalize "a") = some ("a", "x") ∧
      normalize "/\"a\"" ≠ normalize "a" := by
  refine ⟨by decide +kernel, ⟨?_, ?_, ?_⟩, ?_, ?_, by decide +kernel⟩ <;> rfl

end Stencil.Page
