import ZScript.Proofs.DefinitionBlocks
import ZScript.Session

/-!
# The macros of a session

A session files the macros of each stream that it expands into the table it keeps. They come there
in two steps : extraction files them into a table of the stream, in which a later definition takes
the place of an earlier one, and the entries of that table are filed into the table of the session.
The result is that of filing every definition as it comes (`Session.macros_after`), also where the
expansion fails, and no other step touches the table (`macros_of_session`).
-/

namespace ZScript

namespace Session

/-- Something that is done in a session. -/
inductive Step
  | bundle (entry : String)
  | expand (b : Bundle)
  | compile (entry : String) (lines : List Line)
deriving DecidableEq, Repr

/-- The session after a step, whether the step succeeds or fails. -/
def after (lib : Library) (s : Session) : Step → Session
  | .bundle entry => (s.bundle lib entry).2
  | .expand b => (s.expand b.lines).2
  | .compile entry lines => (s.compile entry lines).2

/-- What the stream of a step defines, in order. -/
def Step.defines : Step → List Macro
  | .expand b => definitions b.lines
  | .bundle _ | .compile _ _ => []

/-- A step files what its stream defines. -/
theorem macros_after (lib : Library) (s : Session) (step : Step) :
    (s.after lib step).macros = s.macros.insertAll step.defines := by
  cases step with
  | bundle entry => rfl
  | compile entry lines => rfl
  | expand b =>
    calc (s.after lib (.expand b)).macros
        = s.macros.insertAll (Extraction.ofLines b.lines).table.entries := rfl
      _ = s.macros.insertAll (definitions b.lines) := by
        rw [Extraction.table_ofLines, Catalog.insertAll_entries_ofList]

theorem macros_foldl_after (lib : Library) (steps : List Step) (s : Session) :
    (steps.foldl (after lib) s).macros = s.macros.insertAll (steps.flatMap Step.defines) := by
  induction steps generalizing s with
  | nil => rfl
  | cons step steps ih =>
    rw [List.foldl_cons, ih, macros_after, List.flatMap_cons, Catalog.insertAll_append]

end Session

/-- Whatever is done in a session, its macros are those that all the definition blocks of the
streams it expanded define, filed one after the other in the order of the streams. Of a name the
last definition is found, the names stand in the order of their first definitions, and each entry is
found under its own name. -/
theorem macros_of_session (lib : Library) (config : Config) (steps : List Session.Step) :
    let table := (steps.foldl (Session.after lib) { config }).macros
    let defined := steps.flatMap Session.Step.defines
    table = defined.foldl Catalog.insert .empty ∧
      (∀ name, table.find? name = defined.reverse.find? (·.name == name)) ∧
      table.names = (defined.map Macro.name).eraseDups ∧ table.names.Nodup ∧
      ∀ name m, table.find? name = some m ↔ m ∈ table.entries ∧ m.name = name := by
  intro table defined
  have htable : table = .ofList defined := Session.macros_foldl_after lib steps { config }
  have hnodup : table.names.Nodup := by
    rw [htable]
    exact Catalog.nodup_names_ofList defined
  refine ⟨htable, fun name => ?_, ?_, hnodup, fun name m => Catalog.find?_eq_some_iff hnodup⟩
  · rw [htable]
    exact Catalog.find?_ofList defined name
  · rw [htable]
    exact Catalog.names_ofList defined

end ZScript
