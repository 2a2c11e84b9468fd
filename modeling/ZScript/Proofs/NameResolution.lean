import ZScript.Proofs.ImportGraph

/-!
# What a requested name means

A request may name a unit as it stands, or with or without the extension `.z`. The order in which
these spellings are meant to be tried is that of `FileSet.spellings`, and the unit meant is the first
of them that the file set has (`FileSet.intended?`).

`FileSet.resolve?` tries two spellings only : the request, and then either the one without the
extension or the one with it. To a request without the extension the others make no difference. To
one that ends with `.z` the spelling with a second `.z` is never tried, so the two readings differ
just where that spelling is the only one that the file set has (`FileSet.OnlyExtended`).
-/

namespace ZScript

namespace FileSet

/-! ## Spellings -/

/-- The name without the extension at its end, if it has one. -/
def stem? (name : String) : Option String :=
  (Chars.before? ".z" name.toList).map String.ofList

theorem stem?_eq_some_iff {name stem : String} : stem? name = some stem ↔ name = stem ++ ".z" := by
  rw [stem?, Option.map_eq_some_iff, ← String.toList_inj, String.toList_append]
  constructor
  · rintro ⟨s, hs, rfl⟩
    simpa using Chars.before?_eq_some_iff.1 hs
  · intro h
    exact ⟨stem.toList, Chars.before?_eq_some_iff.2 h, String.ofList_toList⟩

/-- The spellings of a requested name, in the order in which they are meant to be tried : the name
itself, the name without the extension if it has one, and the name with the extension behind it. -/
def spellings (requested : String) : List String :=
  requested :: (stem? requested).toList ++ [requested ++ ".z"]

/-- The first spelling of a requested name that the file set has. -/
def intended? (files : FileSet) (requested : String) : Option String :=
  (spellings requested).find? (· ∈ files.names)

/-- The request has the extension, and of its spellings the file set has only the one in which a
second extension is appended. -/
def OnlyExtended (files : FileSet) (requested : String) : Prop :=
  ∃ stem, requested = stem ++ ".z" ∧ requested ∉ files.names ∧ stem ∉ files.names ∧
    requested ++ ".z" ∈ files.names

variable {files : FileSet} {requested : String}

theorem otherSpelling_of_stem {stem : String} (h : stem? requested = some stem) :
    otherSpelling requested = stem := by
  obtain ⟨s, hs, rfl⟩ := Option.map_eq_some_iff.1 h
  simp [otherSpelling, hs]

theorem otherSpelling_of_no_stem (h : stem? requested = none) :
    otherSpelling requested = requested ++ ".z" := by
  simp [otherSpelling, Option.map_eq_none_iff.1 h]

/-! ## Resolution -/

theorem resolve?_of_mem (h : requested ∈ files.names) :
    files.resolve? requested = some requested := by
  simp [resolve?, Catalog.contains_iff, h]

theorem resolve?_of_notMem (h : requested ∉ files.names) :
    files.resolve? requested =
      if otherSpelling requested ∈ files.names then some (otherSpelling requested) else none := by
  simp [resolve?, Catalog.contains_iff, h]

theorem intended?_of_mem (h : requested ∈ files.names) :
    files.intended? requested = some requested := by
  simp [intended?, spellings, h]

theorem intended?_of_notMem (h : requested ∉ files.names) :
    files.intended? requested =
      ((stem? requested).toList ++ [requested ++ ".z"]).find? (· ∈ files.names) := by
  simp [intended?, spellings, h]

/-- Where the appended extension is not the only way to a unit, the first spelling that the file set
has is found. -/
theorem resolve?_eq_intended? (h : ¬files.OnlyExtended requested) :
    files.resolve? requested = files.intended? requested := by
  by_cases hmem : requested ∈ files.names
  · rw [resolve?_of_mem hmem, intended?_of_mem hmem]
  rw [resolve?_of_notMem hmem, intended?_of_notMem hmem]
  cases hstem : stem? requested with
  | none =>
    rw [otherSpelling_of_no_stem hstem]
    by_cases hext : requested ++ ".z" ∈ files.names <;> simp [hext]
  | some stem =>
    rw [otherSpelling_of_stem hstem]
    by_cases hfile : stem ∈ files.names
    · simp [hfile]
    · have hext : requested ++ ".z" ∉ files.names := fun hext =>
        h ⟨stem, stem?_eq_some_iff.1 hstem, hmem, hfile, hext⟩
      simp [hfile, hext]

/-- Where the appended extension is the only way to a unit, none is found. -/
theorem OnlyExtended.resolve?_eq_none (h : files.OnlyExtended requested) :
    files.resolve? requested = none := by
  obtain ⟨stem, hstem, hmem, hfile, -⟩ := h
  rw [resolve?_of_notMem hmem, otherSpelling_of_stem (stem?_eq_some_iff.2 hstem), if_neg hfile]

theorem OnlyExtended.intended?_eq (h : files.OnlyExtended requested) :
    files.intended? requested = some (requested ++ ".z") := by
  obtain ⟨stem, hstem, hmem, hfile, hext⟩ := h
  rw [intended?_of_notMem hmem, stem?_eq_some_iff.2 hstem]
  simp [hfile, hext]

end FileSet

/-- A request means the first of its spellings that the file set has, unless it ends with the
extension and the file set has only the spelling with a second one. Then nothing is found. Whatever is
found is a name of the file set, and its text can be read. -/
theorem resolves_first_spelling_iff (files : FileSet) (requested : String) :
    (files.resolve? requested = files.intended? requested ↔ ¬files.OnlyExtended requested) ∧
    (files.OnlyExtended requested → files.resolve? requested = none ∧
      files.intended? requested = some (requested ++ ".z")) ∧
    ∀ unit, (Library.ofFiles files).resolve? requested = some unit →
      unit ∈ files.names ∧ ∃ text, (Library.ofFiles files).source? unit = some text := by
  refine ⟨⟨fun heq honly => ?_, FileSet.resolve?_eq_intended?⟩,
    fun honly => ⟨honly.resolve?_eq_none, honly.intended?_eq⟩, fun unit hunit => ?_⟩
  · rw [honly.resolve?_eq_none, honly.intended?_eq] at heq
    cases heq
  · obtain ⟨text, htext⟩ := Library.exists_text_of_resolve? hunit
    exact ⟨FileSet.mem_names_of_text? htext, text, htext⟩

/-- Units on both sides of a request for `lib.z`. -/
def libAliases : FileSet :=
  .ofList [⟨"lib.z.z", "f();"⟩, ⟨"lib", "g();"⟩]

/-- The spelling without the extension goes before the one with a second extension. -/
theorem resolves_first_spelling_iff_libAliases :
    libAliases.resolve? "lib.z" = libAliases.intended? "lib.z" ∧
      libAliases.intended? "lib.z" = some "lib" ∧
        ∃ text, (Library.ofFiles libAliases).source? "lib" = some text := by
  obtain ⟨hfirst, -, hread⟩ := resolves_first_spelling_iff libAliases "lib.z"
  have hstem : "lib" ∈ libAliases.names := by decide
  have honly : ¬libAliases.OnlyExtended "lib.z" := by
    rintro ⟨stem, heq, -, hfile, -⟩
    obtain rfl : "lib" = stem :=
      Option.some.inj ((FileSet.stem?_eq_some_iff.2 rfl).symm.trans (FileSet.stem?_eq_some_iff.2 heq))
    exact hfile hstem
  have hintended : libAliases.intended? "lib.z" = some "lib" := by decide
  have heq := hfirst.2 honly
  exact ⟨heq, hintended, (hread "lib" (heq.trans hintended)).2⟩

/-- A unit whose name ends with two extensions. -/
def twiceExtended : FileSet :=
  .ofList [⟨"lib.z.z", "f();"⟩]

/-- The unit is not found under `lib.z`, the last spelling of which is its name. -/
theorem second_extension_not_tried :
    FileSet.spellings "lib.z" = ["lib.z", "lib", "lib.z.z"] ∧
      twiceExtended.intended? "lib.z" = some "lib.z.z" ∧ twiceExtended.resolve? "lib.z" = none := by
  decide

end ZScript
