import ZScript.Catalog
import ZScript.Text.Scan

/-!
# Files and libraries

A file set holds the texts of units under their names. A library is all that bundling needs to know
of where units come from: how a requested name becomes the name of a unit, and what text that unit
has. Only finitely many units have a text.
-/

namespace ZScript

/-- A unit's name and text. -/
structure SourceFile where
  name : String
  text : String
deriving DecidableEq, Repr

instance : Named SourceFile := ⟨SourceFile.name⟩

/-- The units of a project, in the order in which their names first came. -/
abbrev FileSet := Catalog SourceFile

namespace FileSet

/-- The text under exactly this name. -/
def text? (files : FileSet) (name : String) : Option String :=
  (files.find? name).map SourceFile.text

/-- The other spelling of a name: without `.z` if it ends so, and else with it. -/
def otherSpelling (name : String) : String :=
  match Chars.before? ".z" name.toList with
  | some stem => String.ofList stem
  | none => name ++ ".z"

/-- The unit that a requested name means: the name itself, or else its other spelling. -/
def resolve? (files : FileSet) (requested : String) : Option String :=
  if files.contains requested then some requested
  else if files.contains (otherSpelling requested) then some (otherSpelling requested)
  else none

theorem mem_names_of_text? {files : FileSet} {name text : String}
    (h : files.text? name = some text) : name ∈ files.names := by
  obtain ⟨file, hf, -⟩ := Option.map_eq_some_iff.1 h
  exact Catalog.mem_names_of_find? hf

end FileSet

/-- Where units come from. -/
structure Library where
  /-- The unit that a requested name means. -/
  resolve? : String → Option String
  /-- The text of a unit. -/
  source? : String → Option String
  /-- The units that may have a text. -/
  units : List String
  mem_units : ∀ {unit text : String}, source? unit = some text → unit ∈ units

namespace Library

/-- The library of a file set. -/
def ofFiles (files : FileSet) : Library where
  resolve? := files.resolve?
  source? := files.text?
  units := files.names
  mem_units := FileSet.mem_names_of_text?

/-- The library in which some units are still known but have no text. -/
def withhold (lib : Library) (lost : List String) : Library where
  resolve? := lib.resolve?
  source? unit := if unit ∈ lost then none else lib.source? unit
  units := lib.units
  mem_units h := by
    split at h
    · cases h
    · exact lib.mem_units h

end Library

end ZScript
