/-!
# Catalogs

A catalog holds things under their names, in the order in which the names first came. A thing
inserted under a name that is already there takes the place of the one before it
(`Catalog.find?_insert`, `Catalog.names_insert`).
-/

namespace ZScript

/-- Things that are filed under a name. -/
class Named (α : Type) where
  name : α → String

/-- Named things in the order in which their names first came. -/
structure Catalog (α : Type) where
  entries : List α
deriving DecidableEq, Repr

namespace Catalog

variable {α : Type} [Named α]

/-- The catalog with nothing in it. -/
def empty : Catalog α :=
  ⟨[]⟩

/-- The names, in order. -/
def names (c : Catalog α) : List String :=
  c.entries.map Named.name

/-- The number of things held. -/
def size (c : Catalog α) : Nat :=
  c.entries.length

/-- The thing filed under a name. -/
def find? (c : Catalog α) (name : String) : Option α :=
  c.entries.find? (Named.name · == name)

/-- Whether something is filed under a name. -/
def contains (c : Catalog α) (name : String) : Bool :=
  c.entries.any (Named.name · == name)

/-- Files a thing under its name, in the place of the one that had the name, or else at the
end. -/
def insert (c : Catalog α) (a : α) : Catalog α :=
  if c.contains (Named.name a) then
    ⟨c.entries.map fun b => if Named.name b = Named.name a then a else b⟩
  else ⟨c.entries ++ [a]⟩

/-- Files things one after the other. -/
def insertAll (c : Catalog α) (as : List α) : Catalog α :=
  as.foldl insert c

/-- The catalog of the things in a list. -/
def ofList (as : List α) : Catalog α :=
  empty.insertAll as

theorem contains_iff {c : Catalog α} {name : String} : c.contains name = true ↔ name ∈ c.names := by
  simp [contains, names]

theorem contains_eq_isSome_find? (c : Catalog α) (name : String) :
    c.contains name = (c.find? name).isSome := by
  simp [contains, find?, List.isSome_find?]

theorem names_insert (c : Catalog α) (a : α) :
    (c.insert a).names = if Named.name a ∈ c.names then c.names else c.names ++ [Named.name a] := by
  by_cases h : Named.name a ∈ c.names
  · rw [insert, if_pos (contains_iff.2 h), if_pos h]
    simp only [names, List.map_map]
    refine List.map_congr_left fun b _ => ?_
    by_cases hb : Named.name b = Named.name a <;> simp [hb]
  · rw [insert, if_neg (mt contains_iff.1 h), if_neg h]
    simp [names]

theorem find?_eq_none_iff {c : Catalog α} {name : String} : c.find? name = none ↔ name ∉ c.names := by
  rw [← contains_iff, contains_eq_isSome_find?]
  simp

theorem mem_names_of_find? {c : Catalog α} {name : String} {a : α} (h : c.find? name = some a) :
    name ∈ c.names := by
  rw [← contains_iff, contains_eq_isSome_find?, h]
  rfl

theorem name_of_find? {c : Catalog α} {name : String} {a : α} (h : c.find? name = some a) :
    Named.name a = name := by
  simpa using List.find?_some h

theorem find?_insert (c : Catalog α) (a : α) (name : String) :
    (c.insert a).find? name = if Named.name a = name then some a else c.find? name := by
  by_cases h : Named.name a ∈ c.names
  · have key : ∀ b, Named.name (if Named.name b = Named.name a then a else b) = Named.name b := by
      intro b
      by_cases hb : Named.name b = Named.name a <;> simp [hb]
    have hfind : (c.insert a).find? name =
        (c.find? name).map fun b => if Named.name b = Named.name a then a else b := by
      rw [insert, if_pos (contains_iff.2 h)]
      simp only [find?, List.find?_map]
      congr 2
      funext b
      simp [key]
    rw [hfind]
    cases hc : c.find? name with
    | none =>
      have : Named.name a ≠ name := fun e => find?_eq_none_iff.1 hc (e ▸ h)
      simp [this]
    | some b =>
      rw [name_of_find? hc |>.symm]
      by_cases hb : Named.name b = Named.name a
      · simp [hb]
      · simp [hb, Ne.symm hb]
  · rw [insert, if_neg (mt contains_iff.1 h)]
    by_cases ha : Named.name a = name
    · have : c.entries.find? (Named.name · == name) = none := find?_eq_none_iff.2 (ha ▸ h)
      simp [find?, ha, this]
    · simp [find?, ha]

end Catalog

end ZScript
