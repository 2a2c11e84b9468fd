/-!
# Import paths

The units that are being read at one time, each imported by the one before it. A unit that is
asked for while it stands on the path closes a cycle.
-/

namespace ZScript

/-- Units from an entry down, each imported by the one before it. -/
structure ImportPath where
  units : List String := []
deriving DecidableEq, Repr

namespace ImportPath

/-- The number of units on the path. -/
def depth (p : ImportPath) : Nat :=
  p.units.length

/-- The path one unit further down. -/
def push (p : ImportPath) (unit : String) : ImportPath :=
  ⟨p.units ++ [unit]⟩

/-- The lowest unit, with the path above it. -/
def pop? (p : ImportPath) : Option (String × ImportPath) :=
  p.units.getLast?.map fun unit => (unit, ⟨p.units.dropLast⟩)

/-- The cycle that asking for a unit closes: the path from the unit on, and the unit again. -/
def cycleTo? (p : ImportPath) (unit : String) : Option (List String) :=
  if unit ∈ p.units then some (p.units.dropWhile (· != unit) ++ [unit]) else none

theorem cycleTo?_eq_none_iff {p : ImportPath} {unit : String} :
    p.cycleTo? unit = none ↔ unit ∉ p.units := by
  simp [cycleTo?]

end ImportPath

end ZScript
