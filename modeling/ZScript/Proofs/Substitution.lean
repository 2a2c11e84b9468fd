import ZScript.Macro

/-!
# Instantiated templates

A parameter that has no argument is put in its own place, so an instantiated template holds
characters of the template and of the arguments only (`mem_instantiate`). A call stands for the
instantiated templates of a body that are not blank (`Macro.mem_linesAt_iff`).
-/

namespace ZScript

namespace Chars

theorem mem_of_longest {bs : List Binding} {b : Binding} (h : longest bs = some b) : b ∈ bs := by
  induction bs generalizing b with
  | nil => cases h
  | cons a bs ih =>
    unfold longest at h
    split at h
    · obtain rfl := Option.some.inj h
      simp
    · rename_i b' hb'
      split at h
      · obtain rfl := Option.some.inj h
        exact List.mem_cons_of_mem _ (ih hb')
      · obtain rfl := Option.some.inj h
        simp

theorem value_of_mem_bindings {b : Binding} {parameters arguments : List String}
    (h : b ∈ bindings parameters arguments) :
    b.value = b.parameter ∨ ∃ a ∈ arguments, b.value = a.toList := by
  induction parameters generalizing arguments with
  | nil => simp [bindings] at h
  | cons p ps ih =>
    cases arguments with
    | nil =>
      rcases List.mem_cons.1 h with rfl | h
      · exact Or.inl rfl
      · exact ih h
    | cons a as =>
      rcases List.mem_cons.1 h with rfl | h
      · exact Or.inr ⟨a, by simp, rfl⟩
      · rcases ih h with hb | ⟨a', ha', hb⟩
        · exact Or.inl hb
        · exact Or.inr ⟨a', by simp [ha'], hb⟩

/-- What is put in for a parameter is its argument or the parameter itself, which stands in the
template. -/
theorem mem_substitute {bs : List Binding} {skip : Nat} {s : List Char} {c : Char}
    (h : c ∈ substitute bs skip s) :
    c ∈ s ∨ ∃ b ∈ bs, b.value ≠ b.parameter ∧ c ∈ b.value := by
  induction s generalizing skip with
  | nil => simp [substitute] at h
  | cons a s ih =>
    have hrest : ∀ skip, c ∈ substitute bs skip s →
        c ∈ a :: s ∨ ∃ b ∈ bs, b.value ≠ b.parameter ∧ c ∈ b.value := by
      intro skip hs
      rcases ih hs with hs | hb
      · exact Or.inl (List.mem_cons_of_mem _ hs)
      · exact Or.inr hb
    cases skip with
    | succ skip => exact hrest skip h
    | zero =>
      unfold substitute at h
      split at h
      · rcases List.mem_cons.1 h with rfl | h
        · exact Or.inl (by simp)
        · exact hrest 0 h
      · rename_i b hb
        obtain ⟨hmem, hstarts⟩ := List.mem_filter.1 (mem_of_longest hb)
        rcases List.mem_append.1 h with h | h
        · by_cases hvalue : b.value = b.parameter
          · have hstart : b.parameter <+: a :: s := List.isPrefixOf_iff_prefix.1 hstarts
            exact Or.inl (hstart.subset (hvalue ▸ h))
          · exact Or.inr ⟨b, hmem, hvalue, h⟩
        · exact hrest _ h

end Chars

theorem mem_instantiate {template : String} {parameters arguments : List String} {c : Char}
    (h : c ∈ (instantiate template parameters arguments).toList) :
    c ∈ template.toList ∨ ∃ a ∈ arguments, c ∈ a.toList := by
  rw [instantiate, String.toList_ofList] at h
  rcases Chars.mem_substitute h with h | ⟨b, hb, hvalue, hc⟩
  · exact Or.inl h
  · rcases Chars.value_of_mem_bindings hb with hb | ⟨a, ha, hb⟩
    · exact absurd hb hvalue
    · exact Or.inr ⟨a, ha, hb ▸ hc⟩

namespace Line

variable (l : Line) (name text : String)

@[simp]
theorem text_instantiated : (l.instantiated name text).text = text := rfl

@[simp]
theorem origin_instantiated : (l.instantiated name text).origin = l.origin := rfl

@[simp]
theorem expandedFrom_instantiated : (l.instantiated name text).expandedFrom = some name := rfl

end Line

theorem Macro.mem_linesAt_iff {m : Macro} {call l : Line} {arguments : List String} :
    l ∈ m.linesAt call arguments ↔ ∃ template ∈ m.body, ∃ text ≠ "",
      text = trim (instantiate template m.parameters arguments) ∧
        l = call.instantiated m.name text := by
  simp only [linesAt, List.mem_filterMap, Option.ite_none_left_eq_some, Option.some.injEq,
    String.isEmpty_iff]
  grind

end ZScript
